import HvVerified.Event.ReadUntil
import HvVerified.Event.Proofs.PackingProofs

/-!
# Proofs: the steps of the read requests

What a step does to an open io, as far as the read buffer and the waiting request are concerned.
-/

namespace HvVerified.Event

open Lib Base Option

variable {s s' : ReadIo} {io io' : Hio}

/-- The same read buffer and the same waiting request; the counter of small reads may differ if the
    buffer is an allocated one. -/
structure SameRequest (io io' : Hio) : Prop where
  closed : io'.closed = io.closed
  readbuf : io'.readbuf = io.readbuf
  kind : io'.kind = io.kind
  untilLength : io'.readFlags.untilLength = io.readFlags.untilLength
  untilDelim : io'.readFlags.untilDelim = io.readFlags.untilDelim
  readUntilLength : io'.readUntilLength = io.readUntilLength
  maxReadBufsize : io'.maxReadBufsize = io.maxReadBufsize
  count : io.kind ≠ .alloced → io'.smallReadbytesCnt = io.smallReadbytesCnt

theorem sameRequest_flags (io : Hio) (reading once : Bool) :
    SameRequest io { io with reading, readFlags := { io.readFlags with once } } :=
  ⟨rfl, rfl, rfl, rfl, rfl, rfl, rfl, fun _ => rfl⟩

theorem sameRequest_enter (io : Hio) : SameRequest io (hioReadCbEnter io) := by
  unfold hioReadCbEnter
  split_ifs <;> exact sameRequest_flags ..

theorem sameRequest_exit (io : Hio) (len : Nat) : SameRequest io (hioReadCbExit io len) := by
  unfold hioReadCbExit
  split_ifs with hk
  · exact ⟨rfl, rfl, rfl, rfl, rfl, rfl, rfl, fun h => absurd hk.1 h⟩
  · exact ⟨rfl, rfl, rfl, rfl, rfl, rfl, rfl, fun h => absurd hk.1 h⟩
  · exact sameRequest_flags ..

theorem deliver_eq (mode : ReadMode) (bytes : List UInt8) (hopen : s.io.closed = false) :
    ∃ io', SameRequest s.io io' ∧ deliver s mode bytes = { s with
      io := io'
      stack := .readCb bytes.length :: s.stack
      deliveries := s.deliveries ++ [{ mode, bytes }] } := by
  have hsame := sameRequest_enter s.io
  refine ⟨_, hsame, ?_⟩
  unfold deliver
  rw [if_neg (by simp [hsame.closed, hopen])]

theorem deliver_cases (s : ReadIo) (mode : ReadMode) (bytes : List UInt8) : (deliver s mode bytes).io.closed ∨
      ∃ io', SameRequest s.io io' ∧ deliver s mode bytes = { s with
        io := io'
        stack := .readCb bytes.length :: s.stack
        deliveries := s.deliveries ++ [{ mode, bytes }] } := by
  by_cases hclosed : s.io.closed
  · have henter := (sameRequest_enter s.io).closed.trans hclosed
    rw [deliver, if_pos henter]
    exact .inl ((sameRequest_exit _ _).closed.trans henter)
  · exact .inr (deliver_eq mode bytes (by simpa using hclosed))

theorem hioClose_closed (io : Hio) : (hioClose io).closed := by
  unfold hioClose
  split_ifs with h
  · exact h
  · rfl

/-- The first `k` buffered bytes are passed to `read_cb`. -/
def ReadIo.taken (s : ReadIo) (io' : Hio) (mode : ReadMode) (k : Nat) : ReadIo :=
  { s with
    io := io'
    stack := .readCb k :: s.stack
    deliveries := s.deliveries ++
      [{ mode, bytes := slice s.io.readbuf.base s.io.readbuf.head (s.io.readbuf.head + k) }] }

theorem length_taken (io : Hio) (k : Nat) :
    (slice io.readbuf.base io.readbuf.head (io.readbuf.head + k)).length = k := by
  rw [length_slice, Nat.add_sub_cancel_left]

theorem consume_cases (io : Hio) (k : Nat) : (io.readbuf.head + k = io.readbuf.tail ∧
      consume io k = { io with readbuf := { io.readbuf with head := 0, tail := 0 } }) ∨
    (io.readbuf.head + k ≠ io.readbuf.tail ∧
      consume io k = { io with readbuf := { io.readbuf with head := io.readbuf.head + k } }) := by
  unfold consume
  dsimp only
  split_ifs with h
  · exact .inl ⟨h, rfl⟩
  · exact .inr ⟨h, rfl⟩

theorem consume_all (h : io.readbuf.head ≤ io.readbuf.tail) : consume io (io.readbuf.tail - io.readbuf.head) =
      { io with readbuf := { io.readbuf with head := 0, tail := 0 } } := by
  rw [consume, if_pos (by omega)]

inductive ReadCase (s : ReadIo) : ReadAct → ReadIo → Prop where
  | quiet {act : ReadAct} {io' : Hio} (stack : List ReadCall) (again : Bool) (hio : SameRequest s.io io')
      (hstack : .handleRead ∈ s.stack → .handleRead ∈ stack) :
      ReadCase s act { s with io := io', stack, again }
  | closed {act : ReadAct} {s' : ReadIo} (h : s'.io.closed) : ReadCase s act s'
  | remain (act : ReadAct) {io' : Hio} (hflags : s.io.readFlags = {})
      (hio : SameRequest (consume s.io (s.io.readbuf.tail - s.io.readbuf.head)) io') :
      ReadCase s act (s.taken io' .plain (s.io.readbuf.tail - s.io.readbuf.head))
  | servedLength {n : Nat} {io' : Hio} (hn : sizeSub s.io.readbuf.tail s.io.readbuf.head ≥ n)
      (hio : SameRequest (consume s.io n) io') :
      ReadCase s (.call (.hioReadUntilLength n)) (s.taken io' (.untilLength n) n)
  | servedDelim {delim : UInt8} {i : Nat} {io' : Hio} (hfind : findDelim s.io delim = some i)
      (hio : SameRequest (consume s.io (i + 1)) io') :
      ReadCase s (.call (.hioReadUntilDelim delim)) (s.taken io' (.untilDelim delim) (i + 1))
  | armedLength {n : Nat} {io₁ io' : Hio} (hpos : 0 < n)
      (hn : sizeSub s.io.readbuf.tail s.io.readbuf.head < n)
      (hprep : prepareReadbuf (armUntilLength s.io n) (needLen (armUntilLength s.io n) n) = .ok io₁)
      (hio : SameRequest io₁ io') :
      ReadCase s (.call (.hioReadUntilLength n)) { s with io := io' }
  | armedDelim {delim : UInt8} {io₁ io' : Hio} (hfind : findDelim s.io delim = none)
      (hprep : prepareReadbuf (armUntilDelim s.io delim) hloopReadBufsize = .ok io₁)
      (hio : SameRequest io₁ io') :
      ReadCase s (.call (.hioReadUntilDelim delim)) { s with io := io' }
  | recv {seg : List UInt8} (hopen : s.io.closed = false) (hseg : seg ≠ [])
      (hlen : (seg.length : Int) ≤ nioReadLen s.io) :
      ReadCase s (.recv (.data seg)) (handleRead
        { s with
          io := recvInto s.io seg
          again := false
          received := s.received ++ seg
          stack := .nioRead (seg.length = nioReadLen s.io) :: s.stack } seg.length)
  | autosize {io' : Hio} {stack : List ReadCall} (hstack : s.stack = .handleRead :: stack)
      (hio : readbufAutosize s.io = .ok io') : ReadCase s .resume { s with io := io', stack }
  | loopReadbufUsed (base : BytePtr) (hkind : s.io.kind = .loop) :
      ReadCase s (.loopReadbufUsed base)
        { s with io := { s.io with readbuf := { s.io.readbuf with base } } }

theorem hioRead_case (s : ReadIo) (act : ReadAct) : ReadCase s act (hioRead s) := by
  unfold hioRead
  dsimp only
  split_ifs with hclosed hremain
  · exact .closed hclosed
  · have hend : s.io.readbuf.tail = s.io.readbuf.head + (s.io.readbuf.tail - s.io.readbuf.head) := by omega
    rw [show slice s.io.readbuf.base s.io.readbuf.head s.io.readbuf.tail = _ by rw [hend]]
    rcases deliver_cases { s with io := { s.io with
      reading := true, readbuf := { s.io.readbuf with head := 0, tail := 0 } } } .plain
      (slice s.io.readbuf.base s.io.readbuf.head _) with hc | ⟨io', hsame, heq⟩
    · exact .closed hc
    · rw [heq, length_taken]
      refine .remain act hremain.2 ?_
      rw [consume_all hremain.1.le]
      exact ⟨hsame.closed, hsame.readbuf, hsame.kind, hsame.untilLength, hsame.untilDelim,
        hsame.readUntilLength, hsame.maxReadBufsize, hsame.count⟩
  · exact .quiet s.stack s.again (sameRequest_flags ..) id

theorem hioReadOnce_eq (s : ReadIo) : ∃ io', SameRequest s.io io' ∧ hioReadOnce s = { s with io := io' } := by
  unfold hioReadOnce hioRead
  dsimp only
  split_ifs with hclosed hremain
  · exact ⟨_, sameRequest_flags .., rfl⟩
  · have hflags := congrArg ReadFlags.once hremain.2
    cases hflags
  · exact ⟨_, sameRequest_flags .., rfl⟩

theorem exists_ok_of_map {α β : Type} {x : Except Halt α} {f : α → β} {b : β}
    (h : x.map f = .ok b) : ∃ a, x = .ok a ∧ f a = b := by
  cases x with
  | error e => cases h
  | ok a => exact ⟨a, rfl, Except.ok.inj h⟩

theorem eq_ok_of_toOption {α : Type} {x : Except Halt α} {a : α} (h : x.toOption = some a) : x = .ok a := by
  cases x with
  | error e => cases h
  | ok b => exact congrArg _ (some.inj h)

theorem hioReadUntilLength_case {n : Nat} (hs : hioReadUntilLength s n = .ok s') :
    ReadCase s (.call (.hioReadUntilLength n)) s' := by
  unfold hioReadUntilLength at hs
  split_ifs at hs with hn hserved
  · cases hs
    exact .quiet s.stack s.again (sameRequest_flags ..) id
  · cases hs
    rcases deliver_cases { s with io := consume s.io n } (.untilLength n)
      (slice s.io.readbuf.base s.io.readbuf.head (s.io.readbuf.head + n)) with hc | ⟨io', hsame, heq⟩
    · exact .closed hc
    · rw [heq, length_taken]
      exact .servedLength hserved hsame
  · obtain ⟨io₁, hprep, rfl⟩ := exists_ok_of_map hs
    obtain ⟨io', hsame, heq⟩ := hioReadOnce_eq { s with io := io₁ }
    rw [heq]
    exact .armedLength (by omega) (by omega) hprep hsame

theorem hioReadUntilDelim_case {delim : UInt8} (hs : hioReadUntilDelim s delim = .ok s') :
    ReadCase s (.call (.hioReadUntilDelim delim)) s' := by
  unfold hioReadUntilDelim at hs
  cases hfind : findDelim s.io delim with
  | some i =>
    rw [hfind] at hs
    cases hs
    rcases deliver_cases { s with io := consume s.io (i + 1) } (.untilDelim delim)
      (slice s.io.readbuf.base s.io.readbuf.head (s.io.readbuf.head + (i + 1))) with hc | ⟨io', hsame, heq⟩
    · exact .closed hc
    · rw [heq, length_taken]
      exact .servedDelim hfind hsame
  | none =>
    rw [hfind] at hs
    obtain ⟨io₁, hprep, rfl⟩ := exists_ok_of_map hs
    obtain ⟨io', hsame, heq⟩ := hioReadOnce_eq { s with io := io₁ }
    rw [heq]
    exact .armedDelim hfind hprep hsame

theorem readStep_cases {act : ReadAct} (hs : readStep s act = some s') : ReadCase s act s' := by
  cases act with
  | call op =>
    rw [readStep] at hs
    split_ifs at hs
    replace hs := eq_ok_of_toOption hs
    cases op with
    | hioRead =>
      cases hs
      exact hioRead_case _ _
    | hioReadOnce =>
      cases hs
      obtain ⟨io', hsame, heq⟩ := hioReadOnce_eq s
      rw [heq]
      exact .quiet s.stack s.again hsame id
    | hioReadUntilLength n => exact hioReadUntilLength_case hs
    | hioReadUntilDelim delim => exact hioReadUntilDelim_case hs
    | hioReadStop =>
      cases hs
      exact .quiet s.stack s.again (sameRequest_flags ..) id
    | hioClose =>
      cases hs
      exact .closed (hioClose_closed _)
  | recv r =>
    rw [readStep] at hs
    split_ifs at hs with hreads
    have hopen : s.io.closed = false := by
      simp only [ReadIo.reads, Bool.and_eq_true, Bool.not_eq_true'] at hreads
      exact hreads.1.2
    unfold nioReadCall at hs
    split_ifs at hs
    cases r with
    | data seg =>
      dsimp only at hs
      split_ifs at hs with hseg
      cases hs
      exact .recv hopen hseg.1 hseg.2
    | again =>
      cases hs
      exact .quiet s.stack false (sameRequest_flags ..) id
    | error | disconnect =>
      cases hs
      exact .closed (hioClose_closed _)
  | ret =>
    rw [readStep] at hs
    split at hs
    next len stack hstack =>
      cases hs
      exact .quiet stack s.again (sameRequest_exit s.io len) fun hmem => by simpa [hstack] using hmem
    · cases hs
  | resume =>
    rw [readStep] at hs
    split at hs
    next stack hstack =>
      obtain ⟨io', hio, rfl⟩ := map_eq_some_iff.1 hs
      exact .autosize hstack (eq_ok_of_toOption hio)
    next full stack hstack =>
      cases hs
      exact .quiet stack _ (sameRequest_flags ..) fun hmem => by simpa [hstack] using hmem
    · cases hs
  | closeEvent =>
    rw [readStep] at hs
    split_ifs at hs
    cases hs
    exact .closed (hioClose_closed _)
  | loopReadbufUsed base =>
    rw [readStep] at hs
    split_ifs at hs with hc
    cases hs
    simp only [Bool.and_eq_true, decide_eq_true_eq] at hc
    exact .loopReadbufUsed base hc.2

/-! ## A closed io stays closed -/

theorem consume_closed (io : Hio) (k : Nat) : (consume io k).closed = io.closed := by
  rcases consume_cases io k with ⟨-, heq⟩ | ⟨-, heq⟩ <;> rw [heq]

theorem hioAllocReadbuf_closed {len : Nat} (h : hioAllocReadbuf io len = .ok io') : io'.closed = io.closed := by
  rcases hioAllocReadbuf_cases h with ⟨-, rfl⟩ | ⟨-, -, rfl⟩ <;> rfl

theorem prepareReadbuf_closed {len : Nat} (h : prepareReadbuf io len = .ok io') : io'.closed = io.closed := by
  unfold prepareReadbuf at h
  split_ifs at h
  · exact hioAllocReadbuf_closed h
  · rw [Except.ok.inj h]

theorem hioMemmoveReadbuf_closed (io : Hio) : (hioMemmoveReadbuf io).closed = io.closed := by
  unfold hioMemmoveReadbuf
  dsimp only
  split_ifs <;> rfl

theorem armUntilLength_closed (io : Hio) (n : Nat) : (armUntilLength io n).closed = io.closed := by
  unfold armUntilLength
  dsimp only
  split_ifs
  · exact hioMemmoveReadbuf_closed _
  · rfl

def rewound (io : Hio) : Hio :=
  if io.readbuf.head = io.readbuf.tail then { io with readbuf := { io.readbuf with head := 0, tail := 0 } }
  else io

theorem rewound_cases (io : Hio) : (io.readbuf.head = io.readbuf.tail ∧
      rewound io = { io with readbuf := { io.readbuf with head := 0, tail := 0 } }) ∨
    (io.readbuf.head ≠ io.readbuf.tail ∧ rewound io = io) := by
  unfold rewound
  split_ifs with h
  · exact .inl ⟨h, rfl⟩
  · exact .inr ⟨h, rfl⟩

theorem readbufAutosize_cases (h : readbufAutosize io = .ok io') :
    ((rewound io).readbuf.tail = io.readbuf.len ∧ (rewound io).readbuf.head = 0 ∧
      hioAllocReadbuf (rewound io) (io.readbuf.len * 2 % 2 ^ 32) = .ok io') ∨
    ((rewound io).readbuf.tail = io.readbuf.len ∧ (rewound io).readbuf.head ≠ 0 ∧
      io' = hioMemmoveReadbuf (rewound io)) ∨
    ((rewound io).readbuf.tail ≠ io.readbuf.len ∧ (rewound io).readbuf.tail < io.readbuf.len / 2 ∧
      io.smallReadbytesCnt ≥ 3 ∧ hioAllocReadbuf (rewound io) (io.readbuf.len / 2 % 2 ^ 32) = .ok io') ∨
    ((rewound io).readbuf.tail ≠ io.readbuf.len ∧ io' = rewound io) := by
  have hrewound : (rewound io).readbuf.len = io.readbuf.len ∧
      (rewound io).smallReadbytesCnt = io.smallReadbytesCnt := by
    rcases rewound_cases io with ⟨-, heq⟩ | ⟨-, heq⟩ <;> rw [heq] <;> exact ⟨rfl, rfl⟩
  have heq : readbufAutosize io =
      if (rewound io).readbuf.tail = (rewound io).readbuf.len then
        if (rewound io).readbuf.head = 0 then
          hioAllocReadbuf (rewound io) ((rewound io).readbuf.len * 2 % 2 ^ 32)
        else .ok (hioMemmoveReadbuf (rewound io))
      else
        if (rewound io).readbuf.tail < (rewound io).readbuf.len / 2 ∧ (rewound io).smallReadbytesCnt ≥ 3 then
          hioAllocReadbuf (rewound io) ((rewound io).readbuf.len / 2 % 2 ^ 32)
        else .ok (rewound io) := rfl
  rw [heq, hrewound.1, hrewound.2] at h
  split_ifs at h with h1 h2 h3
  · exact .inl ⟨h1, h2, h⟩
  · exact .inr (.inl ⟨h1, h2, (Except.ok.inj h).symm⟩)
  · exact .inr (.inr (.inl ⟨h1, h3.1, h3.2, h⟩))
  · exact .inr (.inr (.inr ⟨h1, (Except.ok.inj h).symm⟩))

theorem readbufAutosize_closed (h : readbufAutosize io = .ok io') : io'.closed = io.closed := by
  have hrewound : (rewound io).closed = io.closed := by
    rcases rewound_cases io with ⟨-, heq⟩ | ⟨-, heq⟩ <;> rw [heq]
  rcases readbufAutosize_cases h with ⟨-, -, h⟩ | ⟨-, -, rfl⟩ | ⟨-, -, -, h⟩ | ⟨-, rfl⟩
  · exact (hioAllocReadbuf_closed h).trans hrewound
  · exact (hioMemmoveReadbuf_closed _).trans hrewound
  · exact (hioAllocReadbuf_closed h).trans hrewound
  · exact hrewound

theorem ReadCase.opened {act : ReadAct} (hcase : ReadCase s act s') (hopen' : s'.io.closed = false) :
    s.io.closed = false := by
  cases hcase with
  | quiet stack again hio _ => exact hio.closed.symm.trans hopen'
  | closed hc => simp [hopen'] at hc
  | remain act hflags hio => exact (consume_closed _ _).symm.trans (hio.closed.symm.trans hopen')
  | servedLength hn hio => exact (consume_closed _ _).symm.trans (hio.closed.symm.trans hopen')
  | servedDelim hfind hio => exact (consume_closed _ _).symm.trans (hio.closed.symm.trans hopen')
  | armedLength hpos hn hprep hio =>
    rw [← armUntilLength_closed, ← prepareReadbuf_closed hprep, ← hio.closed]
    exact hopen'
  | armedDelim hfind hprep hio =>
    exact (prepareReadbuf_closed hprep).symm.trans (hio.closed.symm.trans hopen')
  | recv hopen hseg hlen => exact hopen
  | autosize hstack hio => exact (readbufAutosize_closed hio).symm.trans hopen'
  | loopReadbufUsed base hkind => exact hopen'

/-- A property of open ios that holds initially and is kept by the steps that leave the io open. -/
theorem open_invariant {ok : ReadIo → ReadAct → Prop} {init : ReadIo → Prop} {I : ReadIo → Prop}
    (h0 : ∀ s, init s → I s)
    (hstep : ∀ s act s', s.io.closed = false → I s → ok s act → s'.io.closed = false → ReadCase s act s' → I s')
    (h : Reachable readStep ok init s) : s.io.closed = false → I s := by
  refine h.invariant (I := fun s => s.io.closed = false → I s) (fun s hs _ => h0 s hs) ?_
  intro s act s' ih hok hs hopen'
  have hcase := readStep_cases hs
  have hopen := hcase.opened hopen'
  exact hstep s act s' hopen (ih hopen) hok hopen' hcase

/-! ## The parts of a step -/

theorem consume_with_flags (io : Hio) (k : Nat) : { consume io k with readFlags := io.readFlags } = consume io k := by
  rcases consume_cases io k with ⟨-, heq⟩ | ⟨-, heq⟩ <;> rw [heq]

/-- What `hio_handle_read` does with an open io, for the request that is waiting. -/
inductive HandleCase (s : ReadIo) (readbytes : Nat) : ReadIo → Prop where
  | length {io' : Hio} (hflag : s.io.readFlags.untilLength)
      (hn : s.io.readUntilLength ≤ s.io.readbuf.tail - s.io.readbuf.head)
      (hio : SameRequest { consume s.io s.io.readUntilLength with
        readFlags := { s.io.readFlags with untilLength := false } } io') :
      HandleCase s readbytes
        (({ s with stack := .handleRead :: s.stack } : ReadIo).taken io'
          (.untilLength s.io.readUntilLength) s.io.readUntilLength)
  | lengthWaits (hflag : s.io.readFlags.untilLength)
      (hn : s.io.readbuf.tail - s.io.readbuf.head < s.io.readUntilLength) :
      HandleCase s readbytes { s with stack := .handleRead :: s.stack }
  | delim {i : Nat} {io' : Hio} (hlength : s.io.readFlags.untilLength = false)
      (hflag : s.io.readFlags.untilDelim)
      (hfind : (slice s.io.readbuf.base (s.io.readbuf.tail - readbytes) s.io.readbuf.tail).findIdx?
        (· == s.io.readUntilDelim) = some i)
      (hio : SameRequest { consume s.io (s.io.readbuf.tail - readbytes + i + 1 - s.io.readbuf.head) with
        readFlags := { s.io.readFlags with untilDelim := false } } io') :
      HandleCase s readbytes (s.taken io' (.untilDelim s.io.readUntilDelim)
        (s.io.readbuf.tail - readbytes + i + 1 - s.io.readbuf.head))
  | delimWaits (hlength : s.io.readFlags.untilLength = false) (hflag : s.io.readFlags.untilDelim)
      (hfind : (slice s.io.readbuf.base (s.io.readbuf.tail - readbytes) s.io.readbuf.tail).findIdx?
        (· == s.io.readUntilDelim) = none) :
      HandleCase s readbytes { s with stack := .handleRead :: s.stack }
  | plain {io' : Hio} (hlength : s.io.readFlags.untilLength = false)
      (hdelim : s.io.readFlags.untilDelim = false)
      (hio : SameRequest (consume s.io (s.io.readbuf.tail - s.io.readbuf.head)) io') :
      HandleCase s readbytes (({ s with stack := .handleRead :: s.stack } : ReadIo).taken io' .plain
        (s.io.readbuf.tail - s.io.readbuf.head))

theorem handleRead_cases (hopen : s.io.closed = false) (hle : s.io.readbuf.head ≤ s.io.readbuf.tail)
    (readbytes : Nat) : HandleCase s readbytes (handleRead s readbytes) := by
  unfold handleRead hioHandleReadPre readMode
  by_cases hlength : s.io.readFlags.untilLength
  · rw [if_pos hlength, if_pos hlength]
    by_cases hn : s.io.readbuf.tail - s.io.readbuf.head ≥ s.io.readUntilLength
    · rw [if_pos hn]
      obtain ⟨io', hsame, heq⟩ := deliver_eq (s := { s with
        io := { consume s.io s.io.readUntilLength with
          readFlags := { s.io.readFlags with untilLength := false } }
        stack := .handleRead :: s.stack }) (.untilLength s.io.readUntilLength)
        (slice s.io.readbuf.base s.io.readbuf.head (s.io.readbuf.head + s.io.readUntilLength))
        ((consume_closed _ _).trans hopen)
      dsimp only
      rw [heq, length_taken]
      exact .length hlength hn hsame
    · rw [if_neg hn]
      exact .lengthWaits hlength (by omega)
  · have hlength' : s.io.readFlags.untilLength = false := by simpa using hlength
    rw [if_neg hlength, if_neg hlength]
    by_cases hdelim : s.io.readFlags.untilDelim
    · rw [if_pos hdelim, if_pos hdelim]
      cases hfind : (slice s.io.readbuf.base (s.io.readbuf.tail - readbytes) s.io.readbuf.tail).findIdx?
          (· == s.io.readUntilDelim) with
      | some i =>
        obtain ⟨io', hsame, heq⟩ := deliver_eq (s := { s with
          io := { consume s.io (s.io.readbuf.tail - readbytes + i + 1 - s.io.readbuf.head) with
            readFlags := { s.io.readFlags with untilDelim := false } } }) (.untilDelim s.io.readUntilDelim)
          (slice s.io.readbuf.base s.io.readbuf.head
            (s.io.readbuf.head + (s.io.readbuf.tail - readbytes + i + 1 - s.io.readbuf.head)))
          ((consume_closed _ _).trans hopen)
        dsimp only
        rw [heq, length_taken]
        exact .delim hlength' hdelim hfind hsame
      | none => exact .delimWaits hlength' hdelim hfind
    · rw [if_neg hdelim, if_neg hdelim]
      have hend : s.io.readbuf.tail = s.io.readbuf.head + (s.io.readbuf.tail - s.io.readbuf.head) := by omega
      rw [← consume_all hle, show slice s.io.readbuf.base s.io.readbuf.head s.io.readbuf.tail = _ by rw [hend]]
      obtain ⟨io', hsame, heq⟩ := deliver_eq (s := { s with
        io := consume s.io (s.io.readbuf.tail - s.io.readbuf.head)
        stack := .handleRead :: s.stack }) .plain
        (slice s.io.readbuf.base s.io.readbuf.head _) ((consume_closed _ _).trans hopen)
      dsimp only
      rw [heq, length_taken]
      exact .plain hlength' (by simpa using hdelim) hsame

end HvVerified.Event
