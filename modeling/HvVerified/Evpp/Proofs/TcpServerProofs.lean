import HvVerified.Evpp.TcpServer
import HvVerified.Lib.Count

/-!
# Proofs: the connections of a server

`TcpEffect` says what a step can do. Two invariants follow from it: as long as no `newConnEvent` finds room that
another one is about to take, the channels and the `newConnEvent`s about to add one keep within
`max_connections` (`WithinLimit`); and `connectionNum` of a loop counts the connections that the loop was given and
has not closed by `onclose`, which the rejected ones never are (`Counted`).
-/

namespace HvVerified.Evpp

open Lib Function List

variable {l : Nat}

/-- What a loop was given and has no channel for: it has not got to it, is about to add it, or has rejected it. -/
def ServerLoop.held (loop : ServerLoop) : Nat := loop.newConns.length + loop.adding.isSome.toNat + loop.rejected

namespace TcpServer

variable {s : TcpServer} {l n : Nat} {f g : ServerLoop → ServerLoop} {io : ConnIo} {a : ServerAct}

@[simp]
theorem modifyLoop_self : (s.modifyLoop l f).loops l = f (s.loops l) := update_self ..

theorem modifyLoop_ne {i : Nat} (h : i ≠ l) : (s.modifyLoop l f).loops i = s.loops i := update_of_ne h ..

theorem modifyLoop_modifyLoop : (s.modifyLoop l f).modifyLoop l g = s.modifyLoop l fun loop => g (f loop) := by
  unfold modifyLoop
  dsimp only
  rw [update_self, update_idem]

/-- Only a `newConnEvent` that finds room starts to add, and only on a loop that is free. -/
def AddingKept (s : TcpServer) (a : ServerAct) (l : Nat) (adding : Option ConnIo) : Prop :=
  adding = (s.loops l).adding ∨ (s.loops l).adding = none ∧ s.channels.length < s.maxConnections ∧
    (a = .newConnEvent l ∧ l < s.threadNum ∨ l = 0 ∧ s.threadNum = 0)

inductive Effect (s : TcpServer) (a : ServerAct) : TcpServer → Prop where
  /-- `n` connections are given to a loop, and what it was given is handled further -/
  | loop {l n next : Nat} {f : ServerLoop → ServerLoop} (hl : l ≤ s.threadNum)
      (hnum : (s.loops l).connectionNum < 2 ^ 32 →
        (f (s.loops l)).connectionNum = ((s.loops l).connectionNum + n) % 2 ^ 32)
      (hheld : (f (s.loops l)).held = (s.loops l).held + n) (hadding : s.AddingKept a l (f (s.loops l)).adding) :
      Effect s a ({ s with nextLoopIdx := next }.modifyLoop l f)
  | added {l : Nat} {io : ConnIo} (hadding : (s.loops l).adding = some io) (hfresh : s.fresh io) :
      Effect s a (s.addChannel l io)
  | closed {c : ServerChannel} (hc : c ∈ s.channels) (hopen : c.status = .connected) : Effect s a (s.onClose c)
  | removed {c : ServerChannel} (hc : c ∈ s.channels) (hclosed : c.status = .closed) :
      Effect s a (s.removeChannel c.io.id)

theorem foldl_least (num : Nat → Nat) : ∀ (is : List Nat) (idx : Nat),
    is.foldl (fun idx i => if num i < num idx then i else idx) idx ∈ idx :: is ∧
    ∀ j ∈ idx :: is, num (is.foldl (fun idx i => if num i < num idx then i else idx) idx) ≤ num j := by
  intro is
  induction is with
  | nil => simp
  | cons i is ih =>
    intro idx
    rw [foldl_cons]
    split_ifs with hlt
    · obtain ⟨hmem, hle⟩ := ih i
      refine ⟨mem_cons_of_mem _ hmem, forall_mem_cons.2 ⟨?_, hle⟩⟩
      exact le_trans (hle i mem_cons_self) (le_of_lt hlt)
    · obtain ⟨hmem, hle⟩ := ih idx
      have hidx := hle idx mem_cons_self
      refine ⟨?_, forall_mem_cons.2 ⟨hidx, forall_mem_cons.2 ⟨?_, fun j hj => ?_⟩⟩⟩
      · rcases mem_cons.1 hmem with h | h
        · rw [h]
          exact mem_cons_self
        · exact mem_cons_of_mem _ (mem_cons_of_mem _ h)
      · omega
      · exact hle j (mem_cons_of_mem _ hj)

theorem leastLoop_spec (num : Nat → Nat) (hn : 0 < n) :
    leastLoop num n < n ∧ ∀ j < n, num (leastLoop num n) ≤ num j := by
  obtain ⟨hmem, hle⟩ := foldl_least num (range' 1 (n - 1)) 0
  have hall : ∀ j, j ∈ 0 :: range' 1 (n - 1) ↔ j < n := by
    intro j
    rw [mem_cons, mem_range'_1]
    omega
  exact ⟨(hall _).1 hmem, fun j hj => hle j ((hall j).2 hj)⟩

theorem nextLoop_cases (s : TcpServer) (rand : Nat) :
    s.threadNum = 0 ∧ (s.nextLoop rand).1 = none ∨ ∃ l < s.threadNum, (s.nextLoop rand).1 = some l := by
  unfold nextLoop
  split_ifs with hzero
  · exact .inl ⟨hzero, rfl⟩
  · have hpos : 0 < s.threadNum := Nat.pos_of_ne_zero hzero
    right
    cases s.loadBalance with
    | roundRobin | random => exact ⟨_, Nat.mod_lt _ hpos, rfl⟩
    | leastConnections => exact ⟨_, (leastLoop_spec _ hpos).1, rfl⟩
    | ipHash | urlHash => exact ⟨0, hpos, rfl⟩

theorem adding_of_loopFree (h : s.loopFree l) : (s.loops l).adding = none := by
  unfold loopFree at h
  rw [Bool.and_eq_true] at h
  exact Option.isNone_iff_eq_none.1 h.1

theorem effect_newConnEvent (next : Nat) (hl : l ≤ s.threadNum) (hnum : (s.loops l).connectionNum < 2 ^ 32 →
      (f (s.loops l)).connectionNum = ((s.loops l).connectionNum + n) % 2 ^ 32)
    (hheld : (f (s.loops l)).held + 1 = (s.loops l).held + n) (hnone : (s.loops l).adding = none)
    (hkept : (f (s.loops l)).adding = none) (hact : a = .newConnEvent l ∧ l < s.threadNum ∨ l = 0 ∧ s.threadNum = 0) :
    s.Effect a (({ s with nextLoopIdx := next }.modifyLoop l f).newConnEvent l io) := by
  unfold newConnEvent
  split_ifs with hfull
  · rw [modifyLoop_modifyLoop]
    refine .loop (n := n) hl hnum ?_ (.inl (hkept.trans hnone.symm))
    unfold ServerLoop.held at hheld ⊢
    omega
  · rw [modifyLoop_modifyLoop]
    refine .loop (n := n) hl hnum ?_ (.inr ⟨hnone, Nat.lt_of_not_le hfull, hact⟩)
    unfold ServerLoop.held at hheld ⊢
    rw [hkept] at hheld
    dsimp only
    rw [Option.isSome_none, Bool.toNat_false] at hheld
    rw [Option.isSome_some, Bool.toNat_true]
    omega

theorem effect_onAccept (hfree : s.loopFree s.threadNum) (rand : Nat) : s.Effect a (s.onAccept io rand) := by
  unfold onAccept
  dsimp only
  rcases s.nextLoop_cases rand with ⟨hzero, hnext⟩ | ⟨l, hl, hnext⟩
  · rw [hnext]
    have hnone := adding_of_loopFree hfree
    exact effect_newConnEvent (n := 1) _ le_rfl (fun _ => rfl) rfl hnone hnone (.inr ⟨hzero, hzero⟩)
  · rw [hnext]
    refine .loop (n := 1) (le_of_lt hl) (fun _ => rfl) ?_ (.inl rfl)
    unfold ServerLoop.held
    rw [length_append, length_singleton]
    dsimp only
    omega

end TcpServer

open TcpServer

variable {s s' : TcpServer} {a : ServerAct}

theorem tcpStep_effect (h : tcpStep s a = some s') : s.Effect a s' := by
  cases a with
  | accept io rand =>
    rw [tcpStep] at h
    split_ifs at h with hfree
    cases h
    exact effect_onAccept hfree rand
  | newConnEvent l =>
    rw [tcpStep] at h
    split_ifs at h with hfree
    have hnone := adding_of_loopFree hfree.2
    cases hqueue : (s.loops l).newConns with
    | nil =>
      rw [hqueue] at h
      cases h
    | cons io rest =>
      rw [hqueue] at h
      cases h
      refine effect_newConnEvent (n := 0) s.nextLoopIdx (le_of_lt hfree.1)
        (fun hlt => (Nat.mod_eq_of_lt hlt).symm) ?_ hnone hnone (.inl ⟨rfl, hfree.1⟩)
      unfold ServerLoop.held
      dsimp only
      rw [hqueue, length_cons]
      omega
  | addChannel l =>
    rw [tcpStep] at h
    cases hadding : (s.loops l).adding with
    | none =>
      rw [hadding] at h
      cases h
    | some io =>
      rw [hadding] at h
      dsimp only at h
      split_ifs at h with hfresh
      cases h
      exact .added hadding hfresh
  | onClose id =>
    rw [tcpStep] at h
    cases hfind : s.channels.find? fun c => c.io.id = id with
    | none =>
      rw [hfind] at h
      cases h
    | some c =>
      rw [hfind] at h
      dsimp only at h
      split_ifs at h with hopen
      cases h
      exact .closed (mem_of_find?_eq_some hfind) hopen.1
  | removeChannel id =>
    rw [tcpStep] at h
    cases hfind : s.channels.find? fun c => c.io.id = id with
    | none =>
      rw [hfind] at h
      cases h
    | some c =>
      rw [hfind] at h
      dsimp only at h
      split_ifs at h with hclosed
      cases h
      have hid : c.io.id = id := by simpa using find?_some hfind
      rw [← hid]
      exact .removed (mem_of_find?_eq_some hfind) hclosed.1

/-! ## The limit -/

/-- The channels and the `newConnEvent`s about to add one are within `max_connections`. The acceptor loop adds
    channels only if there are no worker loops. -/
structure WithinLimit (s : TcpServer) : Prop where
  room : s.channels.length + s.addingNum ≤ s.maxConnections
  loop : ∀ l, (s.loops l).adding.isSome → l < s.threadNum ∨ l = 0 ∧ s.threadNum = 0

namespace TcpServer

variable {l : Nat} {f : ServerLoop → ServerLoop}

theorem addingNum_modifyLoop (hl : l ≤ s.threadNum) : (s.modifyLoop l f).addingNum +
    (s.loops l).adding.isSome.toNat = s.addingNum + (f (s.loops l)).adding.isSome.toNat :=
  countP_update (f := s.loops) nodup_range (mem_range.2 (Nat.lt_succ_of_le hl)) (f (s.loops l))
    fun loop => loop.adding.isSome

theorem adding_modifyLoop (hsame : (f (s.loops l)).adding = (s.loops l).adding) (i : Nat) :
    ((s.modifyLoop l f).loops i).adding = (s.loops i).adding := by
  by_cases hil : i = l
  · subst hil
    rw [modifyLoop_self, hsame]
  · rw [modifyLoop_ne hil]

theorem addingNum_of_same (hsame : (f (s.loops l)).adding = (s.loops l).adding) :
    (s.modifyLoop l f).addingNum = s.addingNum := by
  refine countP_congr fun i _ => ?_
  rw [adding_modifyLoop hsame]

theorem addingNum_onClose (c : ServerChannel) : (s.onClose c).addingNum = s.addingNum :=
  addingNum_of_same (s := s) (l := c.loop)
    (f := fun loop => { loop with connectionNum := (loop.connectionNum + 2 ^ 32 - 1) % 2 ^ 32 }) rfl

theorem addingNum_eq_zero (h : ∀ l ≤ s.threadNum, (s.loops l).adding = none) : s.addingNum = 0 := by
  unfold addingNum
  rw [countP_eq_zero]
  intro l hl
  rw [h l (by rw [mem_range] at hl; omega)]
  decide

end TcpServer

theorem withinLimit_modifyLoop {f : ServerLoop → ServerLoop} (hl : l ≤ s.threadNum) (hinv : WithinLimit s)
    (hadding : s.AddingKept a l (f (s.loops l)).adding) (hroom : s.RoomLeft a) : WithinLimit (s.modifyLoop l f) := by
  rcases hadding with hsame | ⟨hnone, hfound, hact⟩
  · refine ⟨?_, fun i hi => hinv.loop i (by rwa [adding_modifyLoop hsame] at hi)⟩
    rw [addingNum_of_same hsame]
    exact hinv.room
  · have hcount := addingNum_modifyLoop (f := f) hl
    have hle := Bool.toNat_le (f (s.loops l)).adding.isSome
    refine ⟨?_, fun i hi => ?_⟩
    · show s.channels.length + (s.modifyLoop l f).addingNum ≤ s.maxConnections
      rcases hact with ⟨rfl, -⟩ | ⟨rfl, hzero⟩
      · have hleft := hroom hfound
        omega
      · -- there is only the acceptor loop, and it is free
        have hnothing : s.addingNum = 0 := addingNum_eq_zero fun i hi => by
          rwa [show i = 0 by omega]
        omega
    · by_cases hil : i = l
      · subst hil
        exact hact.imp And.right id
      · rw [modifyLoop_ne hil] at hi
        exact hinv.loop i hi

theorem withinLimit_addChannel {io : ConnIo} (hinv : WithinLimit s) (hadding : (s.loops l).adding = some io) :
    WithinLimit (s.addChannel l io) := by
  have hl : l ≤ s.threadNum := by
    have := hinv.loop l (by rw [hadding]; rfl)
    omega
  have hcount := addingNum_modifyLoop (f := fun loop => { loop with adding := none }) hl
  rw [hadding, Option.isSome_some, Option.isSome_none, Bool.toNat_true, Bool.toNat_false] at hcount
  have hlen : (s.addChannel l io).channels.length ≤ s.channels.length + 1 := by
    rw [addChannel, length_append, length_singleton]
    exact Nat.add_le_add_right (length_filter_le _ _) 1
  have hlimit := hinv.room
  refine ⟨?_, fun i hi => ?_⟩
  · show _ ≤ s.maxConnections
    change _ + (s.modifyLoop l fun loop => { loop with adding := none }).addingNum ≤ _
    omega
  · by_cases hil : i = l
    · subst hil
      rw [addChannel, modifyLoop_self] at hi
      cases hi
    · rw [addChannel, modifyLoop_ne hil] at hi
      exact hinv.loop i hi

theorem withinLimit_step (hinv : WithinLimit s) (hroom : s.RoomLeft a) (h : tcpStep s a = some s') :
    WithinLimit s' := by
  cases tcpStep_effect h with
  | @loop l n next f hl hnum hheld hadding =>
    have hinv' : WithinLimit { s with nextLoopIdx := next } := ⟨hinv.room, hinv.loop⟩
    have hroom' : TcpServer.RoomLeft { s with nextLoopIdx := next } a := by
      cases a <;> exact hroom
    exact withinLimit_modifyLoop hl hinv' hadding hroom'
  | @added l io hadding hfresh => exact withinLimit_addChannel hinv hadding
  | @closed c hc hopen =>
    refine ⟨?_, fun i hi => hinv.loop i ?_⟩
    · rw [addingNum_onClose, onClose, length_map]
      exact hinv.room
    · rwa [onClose, adding_modifyLoop rfl] at hi
  | @removed c hc hclosed =>
    exact ⟨le_trans (Nat.add_le_add_right (length_filter_le _ _) _) hinv.room, hinv.loop⟩

theorem withinLimit_started (h : tcpStarted s) : WithinLimit s := by
  obtain ⟨hloops, hchannels⟩ := h
  have hnone : ∀ l, (s.loops l).adding = none := by
    intro l
    rw [hloops]
  refine ⟨?_, fun l hl => ?_⟩
  · rw [hchannels, addingNum_eq_zero fun l _ => hnone l]
    exact Nat.zero_le _
  · rw [hnone l] at hl
    cases hl

theorem roomLeft_of_single (hinv : WithinLimit s) (hsingle : s.threadNum ≤ 1) (h : tcpStep s a = some s') :
    s.RoomLeft a := by
  cases a with
  | newConnEvent l =>
    rw [tcpStep] at h
    split_ifs at h with hfree
    have hnothing : s.addingNum = 0 := addingNum_eq_zero fun i hi => by
      by_cases hil : i = l
      · rw [hil]
        exact adding_of_loopFree hfree.2
      · -- the acceptor loop
        refine Option.not_isSome_iff_eq_none.1 fun hadding => ?_
        have := hinv.loop i hadding
        omega
    intro hfound
    omega
  | accept | addChannel | onClose | removeChannel => trivial

/-- With one loop for the connections, in every run. -/
theorem channels_le_of_single (hsingle : s.threadNum ≤ 1) (h : Reachable tcpStep Always tcpStarted s) :
    s.channels.length ≤ s.maxConnections := by
  have hinv : s.threadNum ≤ 1 → WithinLimit s := by
    refine h.invariant (I := fun s => s.threadNum ≤ 1 → WithinLimit s) (fun _ h _ => withinLimit_started h) ?_
    intro s a s' hinv _ hs hsingle
    rw [show s'.threadNum = s.threadNum by cases tcpStep_effect hs <;> rfl] at hsingle
    exact withinLimit_step (hinv hsingle) (roomLeft_of_single (hinv hsingle) hsingle hs) hs
  exact le_trans (Nat.le_add_right _ _) (hinv hsingle).room

theorem channels_le_of_single_rejected : ∃ s, Reachable tcpStep Always tcpStarted s ∧
    (s.loops 0).rejected = 1 ∧ s.channels.length ≤ s.maxConnections := by
  refine exists_reached (s := { threadNum := 1, maxConnections := 1 })
    [.accept ⟨1, 5⟩ 0, .accept ⟨2, 6⟩ 0, .newConnEvent 0, .addChannel 0, .newConnEvent 0] ⟨rfl, rfl⟩ (by decide +kernel)
    fun s hreach hrun => ⟨of_run hrun (by decide +kernel), channels_le_of_single (of_run hrun (by decide +kernel)) hreach⟩

/-- The number of channels stays within `max_connections` as long as no `newConnEvent` finds room that another one
    is about to take. -/
theorem channels_le_maxConnections {s : TcpServer} (h : Reachable tcpStep TcpServer.RoomLeft tcpStarted s) :
    s.channels.length ≤ s.maxConnections := by
  have hinv : WithinLimit s :=
    h.invariant (fun _ => withinLimit_started) fun _ _ _ hinv hroom hs => withinLimit_step hinv hroom hs
  exact le_trans (Nat.le_add_right _ _) hinv.room

/-- Two connections for one place, on two loops: the second one is rejected. -/
theorem channels_le_maxConnections_rejected : ∃ s, Reachable tcpStep TcpServer.RoomLeft tcpStarted s ∧
    s.threadNum = 2 ∧ s.maxConnections = 1 ∧ (s.loops 0).rejected = 1 ∧ s.channels.length ≤ s.maxConnections := by
  refine exists_reached (s := { threadNum := 2, maxConnections := 1 })
    [.accept ⟨1, 5⟩ 0, .accept ⟨2, 6⟩ 0, .newConnEvent 1, .addChannel 1, .newConnEvent 0] ⟨rfl, rfl⟩ (by decide +kernel)
    fun s hreach hrun => ⟨?_, ?_, ?_, channels_le_maxConnections hreach⟩
  all_goals exact of_run hrun (by decide +kernel)

/-- Both loops find the place free before one of them takes it. -/
theorem channels_exceed_maxConnections : ∃ s, Reachable tcpStep Always tcpStarted s ∧
    s.maxConnections = 1 ∧ s.channels.length = 2 := by
  exact exists_reached (s := { threadNum := 2, maxConnections := 1 })
    [.accept ⟨1, 5⟩ 0, .accept ⟨2, 6⟩ 0, .newConnEvent 1, .newConnEvent 0, .addChannel 1, .addChannel 0] ⟨rfl, rfl⟩
    (by decide +kernel) fun s _ hrun => of_run hrun (by decide +kernel)

/-! ## The counters -/

/-- `connectionNum` of a loop counts its open channels, and what it was given and has no channel for. -/
structure Counted (s : TcpServer) : Prop where
  num : ∀ l, (s.loops l).connectionNum = ((s.loops l).held + s.openOn l) % 2 ^ 32
  ids : (s.channels.map fun c => c.io.id).Nodup
  fds : (s.channels.map fun c => c.io.fd).Nodup

theorem counted_loops {loops : Nat → ServerLoop} (openOn : Nat → Nat) {loop : ServerLoop}
    (hnum : ∀ i, (loops i).connectionNum = ((loops i).held + openOn i) % 2 ^ 32) {openOn' : Nat → Nat}
    (hopen : ∀ i, i ≠ l → openOn' i = openOn i) (hloop : loop.connectionNum = (loop.held + openOn' l) % 2 ^ 32) (i : Nat) :
    (update loops l loop i).connectionNum = ((update loops l loop i).held + openOn' i) % 2 ^ 32 := by
  by_cases hil : i = l
  · subst hil
    rw [update_self, hloop]
  · rw [update_of_ne hil, hopen i hil, hnum i]

theorem counted_addChannel {io : ConnIo} (hinv : Counted s) (hadding : (s.loops l).adding = some io)
    (hfresh : s.fresh io) : Counted (s.addChannel l io) := by
  have hfresh' : ∀ c ∈ s.channels, c.io.id ≠ io.id ∧ c.io.fd ≠ io.fd := by
    intro c hc
    simpa using all_eq_true.1 hfresh c hc
  have hchannels : (s.addChannel l io).channels = s.channels ++ [⟨io, l, .connected⟩] := by
    rw [addChannel, filter_eq_self.2 fun c hc => decide_eq_true (hfresh' c hc).1]
  have hopen : ∀ i, (s.addChannel l io).openOn i = s.openOn i + (decide (l = i)).toNat := by
    intro i
    unfold openOn
    rw [hchannels, countP_append, countP_singleton]
    by_cases hi : l = i <;> simp [hi]
  refine ⟨counted_loops _ hinv.num (fun i hi => ?_) ?_, ?_, ?_⟩
  · rw [hopen i, decide_eq_false (fun h => hi h.symm)]
    rfl
  · have hnum := hinv.num l
    rw [hopen l, decide_eq_true rfl]
    unfold ServerLoop.held at hnum ⊢
    rw [hadding] at hnum
    dsimp only [Option.isSome_some, Option.isSome_none, Bool.toNat_true, Bool.toNat_false] at hnum ⊢
    rw [hnum]
    congr 1
    omega
  · rw [hchannels, map_append, map_singleton, nodup_append_comm, singleton_append, nodup_cons]
    exact ⟨fun hmem => by
      obtain ⟨c, hc, hid⟩ := mem_map.1 hmem
      exact (hfresh' c hc).1 hid, hinv.ids⟩
  · rw [hchannels, map_append, map_singleton, nodup_append_comm, singleton_append, nodup_cons]
    exact ⟨fun hmem => by
      obtain ⟨c, hc, hfd⟩ := mem_map.1 hmem
      exact (hfresh' c hc).2 hfd, hinv.fds⟩

theorem counted_onClose {c : ServerChannel} (hinv : Counted s) (hc : c ∈ s.channels) (hopen : c.status = .connected) :
    Counted (s.onClose c) := by
  have hcount : ∀ i, (s.onClose c).openOn i + (decide (c.loop = i)).toNat = s.openOn i := by
    intro i
    have hchange := countP_change (fun c => c.io.id) hinv.ids hc (fun c => { c with status := .closed })
      fun c => c.loop = i && c.status = .connected
    rw [hopen] at hchange
    simpa [openOn, onClose] using hchange
  have hkept : ∀ {β : Type} (key : ConnIo → β),
      ((s.onClose c).channels.map fun c => key c.io) = s.channels.map fun c => key c.io := by
    intro β key
    rw [onClose, map_map]
    refine map_congr_left fun c' _ => ?_
    dsimp only [comp]
    split_ifs <;> rfl
  refine ⟨counted_loops _ hinv.num (fun i hi => ?_) ?_, ?_, ?_⟩
  · have := hcount i
    rwa [decide_eq_false (fun h => hi h.symm)] at this
  · have hnum := hinv.num c.loop
    have hthis := hcount c.loop
    rw [decide_eq_true rfl, Bool.toNat_true] at hthis
    unfold ServerLoop.held at hnum ⊢
    dsimp only
    omega
  · rw [hkept fun io => io.id]
    exact hinv.ids
  · rw [hkept fun io => io.fd]
    exact hinv.fds

theorem counted_removeChannel {c : ServerChannel} (hinv : Counted s) (hc : c ∈ s.channels)
    (hclosed : c.status = .closed) : Counted (s.removeChannel c.io.id) := by
  have hsub : (s.removeChannel c.io.id).channels.Sublist s.channels := filter_sublist
  refine ⟨fun l => ?_, hinv.ids.sublist (hsub.map _), hinv.fds.sublist (hsub.map _)⟩
  have hremove := countP_remove (fun c => c.io.id) hinv.ids hc fun c => c.loop = l && c.status = .connected
  rw [hclosed] at hremove
  have hopen : (s.removeChannel c.io.id).openOn l = s.openOn l := by
    simpa [openOn, removeChannel] using hremove
  rw [hopen]
  exact hinv.num l

theorem counted_step (hinv : Counted s) (h : tcpStep s a = some s') : Counted s' := by
  cases tcpStep_effect h with
  | @loop l n next f hl hnum hheld hadding =>
    refine ⟨counted_loops s.openOn hinv.num (fun _ _ => rfl) ?_, hinv.ids, hinv.fds⟩
    have hlt : (s.loops l).connectionNum < 2 ^ 32 := by
      rw [hinv.num l]
      exact Nat.mod_lt _ (by decide)
    show (f (s.loops l)).connectionNum = ((f (s.loops l)).held + s.openOn l) % 2 ^ 32
    have := hinv.num l
    omega
  | added hadding hfresh => exact counted_addChannel hinv hadding hfresh
  | closed hc hopen => exact counted_onClose hinv hc hopen
  | removed hc hclosed => exact counted_removeChannel hinv hc hclosed

theorem counted_started (h : tcpStarted s) : Counted s := by
  obtain ⟨hloops, hchannels⟩ := h
  refine ⟨fun l => ?_, by simp [hchannels], by simp [hchannels]⟩
  rw [hloops, openOn, hchannels]
  rfl

theorem counted_of_reachable (h : Reachable tcpStep Always tcpStarted s) : Counted s :=
  h.invariant (fun _ => counted_started) fun _ _ _ hinv _ hs => counted_step hinv hs

theorem Counted.openOn_lt (hinv : Counted s) (l : Nat) : s.openOn l < 2 ^ 32 := by
  have hcard := hinv.fds.length_le_card
  rw [length_map, Fintype.card_fin] at hcard
  have hle : s.openOn l ≤ s.channels.length := countP_le_length
  omega

theorem Counted.connectionNum_eq_iff (hinv : Counted s) (hsettled : s.Settled) (hl : l ≤ s.threadNum) :
    (s.loops l).connectionNum = s.openOn l ↔ 2 ^ 32 ∣ (s.loops l).rejected := by
  have hnum := hinv.num l
  have hlt := hinv.openOn_lt l
  obtain ⟨hqueue, hadding⟩ := hsettled l hl
  rw [ServerLoop.held, hqueue, hadding] at hnum
  dsimp only [length_nil, Option.isSome_none, Bool.toNat_false] at hnum
  omega

/-- While no connection is between `onAccept` and the end of `newConnEvent`, `connectionNum` of every loop is the
    number of its open channels, and `LB_LeastConnections` picks a loop with the fewest, iff no loop shows rejected
    connections in the 32 bits of its counter. -/
theorem connectionNum_right_iff {s : TcpServer} (h : Reachable tcpStep Always tcpStarted s) (hsettled : s.Settled) :
    ((∀ l ≤ s.threadNum, (s.loops l).connectionNum = s.openOn l) ∧
      (s.loadBalance = .leastConnections → ∀ rand l, (s.nextLoop rand).1 = some l →
        ∀ i < s.threadNum, s.openOn l ≤ s.openOn i)) ↔
    ∀ l ≤ s.threadNum, 2 ^ 32 ∣ (s.loops l).rejected := by
  have hinv := counted_of_reachable h
  constructor
  · rintro ⟨hnum, -⟩ l hl
    exact (hinv.connectionNum_eq_iff hsettled hl).1 (hnum l hl)
  · intro hrejected
    have hnum : ∀ l ≤ s.threadNum, (s.loops l).connectionNum = s.openOn l :=
      fun l hl => (hinv.connectionNum_eq_iff hsettled hl).2 (hrejected l hl)
    refine ⟨hnum, fun hleast rand l hnext i hi => ?_⟩
    unfold nextLoop at hnext
    rw [if_neg (by omega), hleast] at hnext
    cases hnext
    obtain ⟨hlt, hle⟩ := leastLoop_spec (fun i => (s.loops i).connectionNum) (show 0 < s.threadNum by omega)
    have := hle i hi
    rwa [hnum _ (le_of_lt hlt), hnum i (le_of_lt hi)] at this

/-- Two connections on two loops, of which one is closed. -/
theorem connectionNum_right_iff_closed : ∃ s, Reachable tcpStep Always tcpStarted s ∧ s.Settled ∧
    s.openOn 0 = 0 ∧ s.openOn 1 = 1 ∧ ∀ l ≤ s.threadNum, (s.loops l).connectionNum = s.openOn l := by
  refine exists_reached (s := { threadNum := 2, loadBalance := .leastConnections })
    [.accept ⟨1, 5⟩ 0, .accept ⟨2, 6⟩ 0, .newConnEvent 1, .newConnEvent 0, .addChannel 1, .addChannel 0,
      .onClose 1, .removeChannel 1] ⟨rfl, rfl⟩ (by decide +kernel) fun s hreach hrun => ?_
  have hsettled : s.Settled := of_run hrun (by decide +kernel)
  have hrejected : ∀ l ≤ s.threadNum, 2 ^ 32 ∣ (s.loops l).rejected := of_run hrun (by decide +kernel)
  exact ⟨hsettled, of_run hrun (by decide +kernel), of_run hrun (by decide +kernel),
    ((connectionNum_right_iff hreach hsettled).2 hrejected).1⟩

/-- A connection that was rejected is still counted: `LB_LeastConnections` prefers the loop with the open one. -/
theorem connectionNum_counts_rejected : ∃ s, Reachable tcpStep Always tcpStarted s ∧ s.Settled ∧
    s.loadBalance = .leastConnections ∧ (s.loops 1).connectionNum = 1 ∧ s.openOn 1 = 0 ∧ s.openOn 0 = 1 ∧
    (s.nextLoop 0).1 = some 0 := by
  exact exists_reached (s := { threadNum := 2, maxConnections := 1, loadBalance := .leastConnections })
    [.accept ⟨1, 5⟩ 0, .newConnEvent 0, .addChannel 0, .accept ⟨2, 6⟩ 0, .newConnEvent 1] ⟨rfl, rfl⟩ (by decide +kernel)
    fun s _ hrun => of_run hrun (by decide +kernel)

end HvVerified.Evpp
