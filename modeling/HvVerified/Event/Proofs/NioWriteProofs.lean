import HvVerified.Event.NioWrite
import Mathlib.Data.List.Count
import Mathlib.Data.List.Pairwise

/-!
# Proofs: the steps of the write side

The elementary changes of the io of which every step is made, for the proofs about the stream of bytes and
about the close protocol.
-/

namespace HvVerified.Event

open Lib List Option

variable {io io' : WriteIo} {r : SendResult} {bad : Prop} {stack : List WriteCall}

/-- The io after `n` bytes of a buffer were written directly; `write_cb` is called if there are any. -/
def directIo (io : WriteIo) (buf : List UInt8) (n : Nat) (writing : Bool) : WriteIo :=
  { io with
    calls := io.calls ++ [buf]
    accepted := io.accepted ++ buf.take n
    writing := writing
    stack := if n > 0 then .hioWrite :: io.stack else io.stack }

/-- The io after `hio_write` has enqueued what the kernel did not accept. -/
def enqueuedIo (io : WriteIo) (unwritten : List UInt8) : WriteIo :=
  { io with
    writeQueue := io.writeQueue ++ [{ base := io.nextBase, bytes := unwritten, offset := 0 }]
    nextBase := io.nextBase + 1
    writeBufsize := io.writeBufsize + unwritten.length }

/-- The io after the kernel has accepted `n` bytes of the first buffer. -/
def sentIo (io : WriteIo) (pbuf : OffsetBuf) (queue : List OffsetBuf) (n : Nat) : WriteIo :=
  { io with
    writeQueue := { pbuf with offset := pbuf.offset + n } :: queue
    writeBufsize := io.writeBufsize - n
    accepted := io.accepted ++ pbuf.unsent.take n
    stack := .nioWrite pbuf.base (n = pbuf.bytes.length - pbuf.offset) :: io.stack }

/-- An elementary change. `bad` says that the step closes the io while `nio_write` has still to free the first
    buffer. -/
inductive Move (bad : Prop) (io : WriteIo) : WriteIo → Prop
  | flags (error close closeTimer : Bool) (closeEvents : Nat) :
    Move bad io { io with error := error, close := close, closeTimer := closeTimer, closeEvents := closeEvents }
  | idle (hq : io.writeQueue = []) : Move bad io { io with writing := false }
  | refused (buf accepted : List UInt8) (error : Bool) (closeEvents : Nat) {writing : Bool}
    (hw : writing = io.writing ∨ io.closed = false ∧ writing) :
    Move bad io { io with
      calls := io.calls ++ [buf], accepted := accepted, failed := true, error := error
      closeEvents := closeEvents, writing := writing }
  | direct {buf : List UInt8} {n : Nat} {writing : Bool} (hopen : io.closed = false)
    (hq : io.writeQueue = [] ∨ n = 0) (hw : writing = io.writing ∨ writing) (hn : buf.length ≤ n) :
    Move bad io (directIo io buf n writing)
  | enqueued {buf : List UInt8} {n : Nat} {writing : Bool} (hopen : io.closed = false)
    (hq : io.writeQueue = [] ∨ n = 0) (hw : writing = io.writing ∧ io.writeQueue ≠ [] ∨ writing) :
    Move bad io (enqueuedIo (directIo io buf n writing) (buf.drop n))
  | sent {pbuf : OffsetBuf} {queue : List OffsetBuf} {n : Nat} (hopen : io.closed = false)
    (hq : io.writeQueue = pbuf :: queue) (hn : n ≤ pbuf.bytes.length - pbuf.offset) (hstack : io.stack = []) :
    Move bad io (sentIo io pbuf queue n)
  | returned {c : WriteCall} {stack : List WriteCall} (hstack : io.stack = c :: stack) :
    Move bad io { io with stack := stack }
  | freed {base : Nat} {pbuf : OffsetBuf} {queue : List OffsetBuf} (hopen : io.closed = false)
    (hstack : io.stack = [.nioWrite base true]) (hq : io.writeQueue = pbuf :: queue) :
    Move bad io { io with stack := [], released := io.released ++ [base], writeQueue := queue }
  | popEmpty {base : Nat} (hstack : io.stack = [.nioWrite base true]) (hq : io.writeQueue = []) :
    Move bad io { io with stack := [], released := io.released ++ [base], popEmpty := true }
  | closed (hopen : io.closed = false) (hno : bad ∨ ∀ base, .nioWrite base true ∉ io.stack) :
    Move bad io { io with
      ready := false, closed := true, writing := false
      released := io.released ++ io.writeQueue.map OffsetBuf.base
      writeQueue := [], closeTimer := false, closeCbs := io.closeCbs + 1
      stack := .hioClose :: io.stack }

abbrev Moves (bad : Prop) : WriteIo → WriteIo → Prop := Relation.ReflTransGen (Move bad)

theorem Moves.keeps {I : WriteIo → Prop} (hmove : ∀ {io io' : WriteIo}, Move bad io io' → I io → I io')
    (h : Moves bad io io') (hI : I io) : I io' := by
  induction h with
  | refl => exact hI
  | tail _ hm ih => exact hmove hm ih

theorem moves_close (hready : io.closed = false → io.ready)
    (hno : io.writeQueue = [] ∨ io.error ∨ io.close → bad ∨ ∀ base, .nioWrite base true ∉ io.stack) :
    Moves bad io (hioCloseWrite io) := by
  unfold hioCloseWrite
  split_ifs with hc hd
  · exact .refl
  · exact .single (.flags _ true true _)
  · rw [Bool.not_eq_true] at hc
    have hno := hno (by simpa [imp_iff_not_or] using hd)
    simp only [hioDone, hready hc, if_true]
    exact .single (.closed hc hno)

theorem moves_nioWrite (hs : nioWrite io r = some io') (hopen : io.closed = false) (hready : io.ready)
    (hstack : io.stack = []) : Moves bad io io' := by
  have hno : ∀ base, .nioWrite base true ∉ io.stack := by simp [hstack]
  unfold nioWrite at hs
  split at hs
  · cases hs
    split_ifs
    · exact .head (.flags _ false _ _) (moves_close (fun _ => hready) fun _ => .inr hno)
    · exact .refl
  · rename_i pbuf queue hq
    cases r with
    | again =>
      cases hs
      exact .refl
    | error =>
      cases hs
      exact .head (.flags true _ _ _) (moves_close (fun _ => hready) fun _ => .inr hno)
    | wrote n =>
      simp only at hs
      split_ifs at hs with hn hzero <;> cases hs
      · exact moves_close (fun _ => hready) fun _ => .inr hno
      · exact .single (.sent hopen hq (Nat.le_of_not_lt hn) hstack)

theorem moves_hioWriteRest {buf : List UInt8} {n : Nat} {writing : Bool} (hopen : io.closed = false)
    (hq : io.writeQueue = [] ∧ (writing = io.writing ∧ buf.length ≤ n ∨ writing) ∨
      io.writeQueue ≠ [] ∧ n = 0 ∧ writing = io.writing) : Moves bad io (hioWriteRest { io with
      calls := io.calls ++ [buf], accepted := io.accepted ++ buf.take n, writing := writing } buf n) := by
  unfold hioWriteRest
  by_cases hlt : n < buf.length
  · have := Nat.not_le_of_lt hlt
    rw [if_pos hlt]
    by_cases hfull : io.writeBufsize + (buf.drop n).length > io.maxWriteBufsize
    · simp only [if_pos hfull]
      exact .single (.refused _ _ true _ (by tauto))
    · simp only [if_neg hfull]
      exact .single (.enqueued hopen (by tauto) (by tauto))
  · rw [if_neg hlt]
    exact .single (.direct hopen (by tauto) (by tauto) (Nat.le_of_not_lt hlt))

theorem moves_hioWrite {buf : List UInt8} (hs : hioWrite io buf r = some io') : Moves bad io io' := by
  unfold hioWrite at hs
  simp only at hs
  split_ifs at hs with hc hq
  · cases hs
    exact .single (.refused _ _ _ _ (.inl rfl))
  · rw [Bool.not_eq_true] at hc
    cases r with
    | again =>
      cases hs
      simpa using moves_hioWriteRest (n := 0) hc (.inl ⟨hq, .inr rfl⟩)
    | error =>
      cases hs
      exact .single (.refused _ _ _ _ (.inl rfl))
    | wrote n =>
      simp only at hs
      split_ifs at hs with hn hall hzero <;> cases hs
      · exact moves_hioWriteRest hc (.inl ⟨hq, .inl ⟨rfl, Nat.le_of_eq hall.symm⟩⟩)
      · exact .single (.refused _ _ _ _ (.inl rfl))
      · exact moves_hioWriteRest hc (.inl ⟨hq, .inr rfl⟩)
  · cases hs
    simpa using moves_hioWriteRest (n := 0) (Bool.not_eq_true _ ▸ hc) (.inr ⟨hq, rfl, rfl⟩)

theorem mem_pushed {n base : Nat} {full : Bool}
    (h : .nioWrite base full ∈ if n > 0 then .hioWrite :: stack else stack) : .nioWrite base full ∈ stack := by
  split_ifs at h
  · simpa using h
  · exact h

/-! ## What holds in every run -/

/-- A pending `nio_write` was called by the loop, so no other call waits below it. -/
def NioLast (stack : List WriteCall) : Prop :=
  stack.Pairwise fun above _ => ∀ base full, above ≠ .nioWrite base full

theorem NioLast.tail_eq_nil {base : Nat} {full : Bool}
    (h : NioLast (.nioWrite base full :: stack)) : stack = [] := by
  cases stack with
  | nil => rfl
  | cons c rest => exact absurd rfl ((pairwise_cons.mp h).1 c mem_cons_self base full)

theorem NioLast.push {c : WriteCall} (h : NioLast stack)
    (hc : ∀ base full, c ≠ .nioWrite base full) : NioLast (c :: stack) :=
  pairwise_cons.mpr ⟨fun _ _ => hc, h⟩

/-- The flags and the queue agree: a closed io does not write and has no queue. -/
structure WriteWf (io : WriteIo) : Prop where
  nioLast : NioLast io.stack
  ready : io.closed = false → io.ready
  stopped : io.closed → io.writing = false ∧ io.writeQueue = []

theorem writeWf_of_open (hlast : NioLast io.stack) (hopen : io.closed = false) (hready : io.ready) : WriteWf io :=
  ⟨hlast, fun _ => hready, fun hc => by rw [hopen] at hc; cases hc⟩

theorem WriteWf.not_closed (h : WriteWf io) (hbusy : io.writing ∨ io.writeQueue ≠ []) : io.closed = false := by
  by_contra hc
  obtain ⟨hw, hq⟩ := h.stopped (by simpa using hc)
  simp [hw, hq] at hbusy

theorem writeWf_move (hm : Move bad io io') (h : WriteWf io) : WriteWf io' := by
  cases hm with
  | flags => exact ⟨h.nioLast, h.ready, h.stopped⟩
  | idle hq => exact ⟨h.nioLast, h.ready, fun _ => ⟨rfl, hq⟩⟩
  | refused _ _ _ _ hw =>
    refine ⟨h.nioLast, h.ready, fun hc => ⟨?_, (h.stopped hc).2⟩⟩
    rcases hw with rfl | ⟨hopen, -⟩
    · exact (h.stopped hc).1
    · exact absurd (hopen.symm.trans hc) (by simp)
  | direct hopen | enqueued hopen =>
    refine writeWf_of_open ?_ hopen (h.ready hopen)
    show NioLast (if _ then _ else _)
    split_ifs
    · exact h.nioLast.push (by simp)
    · exact h.nioLast
  | sent hopen _ _ hstack =>
    refine writeWf_of_open ?_ hopen (h.ready hopen)
    rw [sentIo, hstack]
    exact pairwise_singleton _ _
  | returned hstack =>
    have hlast := h.nioLast
    rw [hstack] at hlast
    exact ⟨(pairwise_cons.mp hlast).2, h.ready, h.stopped⟩
  | freed hopen => exact writeWf_of_open List.Pairwise.nil hopen (h.ready hopen)
  | popEmpty => exact ⟨List.Pairwise.nil, h.ready, h.stopped⟩
  | closed => exact ⟨h.nioLast.push (by simp), nofun, fun _ => ⟨rfl, rfl⟩⟩

/-- The io is closed while the first buffer, which `nio_write` has written completely, is still in the queue. -/
def ClosesInWriteCb (io : WriteIo) (act : WriteAct) : Prop :=
  act = .close ∧ (io.writeQueue = [] ∨ io.error ∨ io.close) ∧ ∃ base, .nioWrite base true ∈ io.stack

theorem moves_step {act : WriteAct} (h : WriteWf io) (hs : writeStep io act = some io') :
    Moves (ClosesInWriteCb io act) io io' := by
  unfold writeStep at hs
  by_cases hp : io.popEmpty
  · simp [hp] at hs
  rw [if_neg hp] at hs
  cases act with
  | write buf r => exact moves_hioWrite hs
  | close =>
    cases hs
    refine moves_close h.ready fun hclose => ?_
    by_cases hbase : ∃ base, .nioWrite base true ∈ io.stack
    · exact .inl ⟨rfl, hclose, hbase⟩
    · exact .inr (not_exists.1 hbase)
  | closeAsync =>
    cases hs
    exact .single (.flags _ _ _ _)
  | ret r =>
    have hlast := h.nioLast
    cases hst : io.stack with
    | nil => simp [hst] at hs
    | cons c stack =>
      cases c with
      | hioWrite | hioClose =>
        simp only [hst, some.injEq] at hs
        subst hs
        exact .single (.returned hst)
      | nioWrite base full =>
        simp only [hst, nioWriteRest] at hs hlast
        obtain rfl := hlast.tail_eq_nil
        cases full with
        | false =>
          cases hs
          exact .single (.returned hst)
        | true =>
          simp only [if_true] at hs
          split at hs
          · cases hs
            exact .single (.popEmpty hst ‹_›)
          · rename_i pbuf queue hq
            have hopen := h.not_closed (.inr (by simp [hq]))
            rw [if_neg (by simp [hopen])] at hs
            exact .head (.freed hopen hst hq) (moves_nioWrite hs hopen (h.ready hopen) rfl)
  | writable r =>
    simp only [handleWritable] at hs
    split_ifs at hs with hst hw hq
    · have hopen := h.not_closed (.inl hw)
      exact .head (.idle hq) (moves_nioWrite hs hopen (h.ready hopen) hst)
    · have hopen := h.not_closed (.inl hw)
      exact moves_nioWrite hs hopen (h.ready hopen) hst
    · cases hs
      exact .refl
  | closeTimeout =>
    simp only at hs
    split_ifs at hs with hst
    cases hs
    exact .head (.flags true _ false _) (moves_close h.ready fun _ => .inr fun _ => by simp [hst.1])
  | closeEvent =>
    simp only at hs
    split_ifs at hs with hst
    cases hs
    exact .head (.flags _ _ _ _) (moves_close h.ready fun _ => .inr fun _ => by simp [hst.1])

theorem writeWf_step {act : WriteAct} (h : WriteWf io) (hs : writeStep io act = some io') : WriteWf io' :=
  Moves.keeps writeWf_move (moves_step h hs) h

end HvVerified.Event
