import HvVerified.Cpputil.ThreadPool
import HvVerified.Lib.Count

/-!
# Proofs: `HThreadPool`

`WorkerEffect` and `CallerEffect` say what a step of a worker, or of a thread that uses the pool, can do. The counters
count the threads that have got so far (`Counts`). From this follow the bounds on the number of threads, and when
`wait` is a barrier.
-/

namespace HvVerified.Cpputil

open Lib List Option Caller Pool Worker

namespace Worker

/-- Counted in `cur_thread_num`, once `addThread` has counted it. -/
@[simp]
def counted : Worker → Bool
  | loop | waiting | taking | running _ | ran | deleting => true
  | _ => false

/-- Counted in `idle_thread_num`, once `addThread` has counted it. -/
@[simp]
def idling : Worker → Bool
  | loop | waiting | deleting | deletedCur => true
  | _ => false

/-- Has a task, or is about to take one. -/
@[simp]
def busy : Worker → Bool
  | taking | running _ | ran => true
  | _ => false

end Worker

namespace Caller

/-- Has started a thread that `cur_thread_num` does not count yet. -/
def addsCur : Caller → Bool
  | addCur _ => true
  | _ => false

/-- Has started a thread that `idle_thread_num` does not count yet. -/
def addsIdle : Caller → Bool
  | addCur _ | addIdle _ => true
  | _ => false

/-- How many threads `start` is still to create and count. -/
def todo : Caller → Nat
  | start n | addIdle (.start n) => n
  | create (.start n) | spawn (.start n) | addCur (.start n) => n + 1
  | _ => 0

theorem todo_of_not_inStart {c : Caller} (h : c.inStart = false) : c.todo = 0 := by
  unfold inStart at h
  unfold todo
  split at h <;> simp_all

end Caller

variable {s s' : Pool} {w w' : Worker} {c c' : Caller} {right : Bool} {a : PoolAct}

/-! ## What the steps do -/

structure WorkerEffect (s : Pool) (w : Worker) (s' : Pool) (w' : Worker) : Prop where
  minThreadNum : s'.minThreadNum = s.minThreadNum
  maxThreadNum : s'.maxThreadNum = s.maxThreadNum
  workers : s'.workers = s.workers
  callers : s'.callers = s.callers
  begun : s'.begun = s.begun
  committed : s'.committed = s.committed
  cur : s'.curThreadNum + w.counted.toNat = s.curThreadNum + w'.counted.toNat
  idle : s'.idleThreadNum + w.idling.toNat = s.idleThreadNum + w'.idling.toNat
  stays : w ≠ .deleting → s'.curThreadNum = s.curThreadNum
  retires : w = .deleting → w' = .deletedCur
  live : w'.live.toNat ≤ w.live.toNat
  mutex : w'.holdsTaskMutex → w.holdsTaskMutex ∨ s.taskMutexFree
  deleting : w' = .deleting → s.minThreadNum < s.curThreadNum
  tasks : ∀ task ∈ s.tasks, task ∈ s'.tasks ∨ w' = .running task
  running : ∀ task, w = .running task → task ∈ s'.finished
  finished : ∀ task ∈ s.finished, task ∈ s'.finished
  empty : s.tasks = [] → s'.tasks = [] ∧ (w'.busy → w.busy)

theorem workerStep_effect (h : s.workerStep w = some (s', w')) : WorkerEffect s w s' w' := by
  cases w with
  | loop | deleting =>
    rw [workerStep] at h
    split_ifs at h
    cases h
    constructor <;> simp
  | waiting =>
    rw [workerStep] at h
    by_cases hfree : s.taskMutexFree
    · rw [if_pos hfree] at h
      cases htasks : s.tasks with
      | nil =>
        rw [htasks] at h
        split_ifs at h with hmany
        · cases h
          constructor <;> simp [hfree, htasks, hmany]
        · cases h
          constructor <;> simp [htasks]
      | cons task rest =>
        rw [htasks] at h
        cases h
        constructor <;> simp [hfree, htasks]
    · rw [if_neg hfree] at h
      cases h
  | taking =>
    rw [workerStep] at h
    cases htasks : s.tasks with
    | nil =>
      rw [htasks] at h
      cases h
    | cons task rest =>
      rw [htasks] at h
      cases h
      constructor <;> simp +contextual [htasks]
  | running task =>
    cases h
    constructor <;> simp +contextual
  | ran | deletedCur | deletedIdle | retired =>
    cases h
    constructor <;> simp
  | exited => cases h

structure CallerEffect (s : Pool) (c : Caller) (s' : Pool) (c' : Caller) : Prop where
  minThreadNum : s'.minThreadNum = s.minThreadNum
  maxThreadNum : s'.maxThreadNum = s.maxThreadNum
  callers : s'.callers = s.callers
  begun : s'.begun = s.begun
  finished : s'.finished = s.finished
  workers : s'.workers = s.workers ∨ s'.workers = s.workers ++ [.loop]
  cur : s'.curThreadNum + c'.addsCur.toNat + s.workers.countP counted =
    s.curThreadNum + c.addsCur.toNat + s'.workers.countP counted
  idle : s'.idleThreadNum + c'.addsIdle.toNat + s.workers.countP idling =
    s.idleThreadNum + c.addsIdle.toNat + s'.workers.countP idling
  grows : s.curThreadNum ≤ s'.curThreadNum
  live : s'.liveNum + c'.isSpawn.toNat ≤ s.liveNum + c.isSpawn.toNat ∨
    (∃ ret, c = .create ret) ∧ s.curThreadNum < s.maxThreadNum ∧ s' = s
  todo : s.curThreadNum + c.todo ≤ s'.curThreadNum + c'.todo ∨ s.maxThreadNum ≤ s'.curThreadNum
  tasks : s'.tasks = s.tasks ∧ s'.committed = s.committed ∨
    ∃ task, s'.tasks = s.tasks ++ [task] ∧ s'.committed = s.committed ++ [task]
  outside : c.inCommit = false → s' = s ∧ c'.inCommit = false
  inside : c.inCommit → c'.inCommit ∨ c' = .outside

theorem CallerEffect.move (hcur : c'.addsCur = c.addsCur) (hidle : c'.addsIdle = c.addsIdle)
    (hspawn : c'.isSpawn = c.isSpawn) (htodo : c.todo ≤ c'.todo) (hout : c'.inCommit = c.inCommit ∨ c' = .outside) :
    CallerEffect s c s c' where
  minThreadNum := rfl
  maxThreadNum := rfl
  callers := rfl
  begun := rfl
  finished := rfl
  workers := .inl rfl
  cur := by rw [hcur]
  idle := by rw [hidle]
  grows := le_rfl
  live := by rw [hspawn]; exact .inl le_rfl
  todo := .inl (by omega)
  tasks := .inl ⟨rfl, rfl⟩
  outside := fun h => ⟨rfl, hout.elim (fun heq => heq.trans h) (fun heq => by rw [heq]; rfl)⟩
  inside := fun h => hout.imp_left fun heq => heq.trans h

theorem callerStep_effect (h : s.callerStep right c = some (s', c')) : CallerEffect s c s' c' := by
  cases c with
  | outside => cases h
  | start n =>
    cases n with
    | zero =>
      cases h
      exact .move rfl rfl rfl le_rfl (.inr rfl)
    | succ n =>
      cases h
      exact .move rfl rfl rfl le_rfl (.inl rfl)
  | commit idle size =>
    have hmove : s' = s ∧ (c' = .commitCur ∨ c' = .push ∨ ∃ idle size, c' = .commit idle size) := by
      cases idle <;> cases size <;> grind [callerStep]
    obtain ⟨rfl, rfl | rfl | ⟨idle', size', rfl⟩⟩ := hmove
    · exact .move rfl rfl rfl le_rfl (.inl rfl)
    · exact .move rfl rfl rfl le_rfl (.inl rfl)
    · exact .move rfl rfl rfl le_rfl (.inl rfl)
  | commitCur | wait =>
    rw [callerStep] at h
    split_ifs at h
    · cases h
      exact .move rfl rfl rfl le_rfl (.inl rfl)
    · cases h
      exact .move rfl rfl rfl le_rfl (.inl rfl)
  | create ret =>
    rw [callerStep] at h
    split_ifs at h with hfull
    · cases h
      constructor
      case todo => exact .inr hfull
      all_goals cases ret
      all_goals simp [Return.caller, addsCur, addsIdle, isSpawn, inCommit]
    · cases h
      constructor
      case todo => exact .inl (by cases ret <;> exact le_rfl)
      case live => exact .inr ⟨⟨ret, rfl⟩, by omega, rfl⟩
      all_goals simp [addsCur, addsIdle, inCommit]
  | spawn ret =>
    cases h
    constructor
    case todo => exact .inl (by cases ret <;> exact le_rfl)
    all_goals simp [addsCur, addsIdle, isSpawn, inCommit, liveNum]
    all_goals omega
  | addCur ret =>
    rw [callerStep] at h
    split_ifs at h
    cases h
    constructor
    case todo => exact .inl (by cases ret <;> dsimp only [todo] <;> omega)
    all_goals simp [addsCur, addsIdle, isSpawn, inCommit, liveNum]
  | addIdle ret =>
    cases h
    constructor
    all_goals cases ret
    all_goals simp [Return.caller, addsCur, addsIdle, isSpawn, inCommit, todo,
      liveNum]
  | push =>
    rw [callerStep] at h
    split_ifs at h
    cases h
    constructor
    case tasks => exact .inr ⟨_, rfl, rfl⟩
    all_goals simp [addsCur, addsIdle, isSpawn, inCommit, todo, liveNum]
  | waitRead call idle cur =>
    have hmove : s' = s ∧ (c' = .wait call ∨ (∃ idle cur, c' = .waitRead call idle cur) ∨
        ∃ quiet, c' = .waited call quiet) := by
      cases idle <;> cases cur <;> grind [callerStep]
    obtain ⟨rfl, rfl | ⟨idle', cur', rfl⟩ | ⟨quiet, rfl⟩⟩ := hmove
    · exact .move rfl rfl rfl le_rfl (.inl rfl)
    · exact .move rfl rfl rfl le_rfl (.inl rfl)
    · exact .move rfl rfl rfl le_rfl (.inl rfl)
  | waited call quiet =>
    cases h
    exact .move rfl rfl rfl le_rfl (.inl rfl)

inductive PoolEffect (s : Pool) : PoolAct → Pool → Prop where
  | worker {i : Nat} {w w' : Worker} {s' : Pool} (hw : s.workers[i]? = some w) (heffect : WorkerEffect s w s' w') :
      PoolEffect s (.worker i) { s' with workers := s'.workers.set i w' }
  | caller {i : Nat} {right : Bool} {c c' : Caller} {s' : Pool} (hc : s.callers[i]? = some c)
      (hstep : s.callerStep right c = some (s', c')) (heffect : CallerEffect s c s' c') :
      PoolEffect s (.caller i right) { s' with callers := s'.callers.set i c' }
  | call {a : PoolAct} {i begun : Nat} {c : Caller} (hc : s.callers[i]? = some .outside)
      (hplain : c.addsCur = false ∧ c.addsIdle = false ∧ c.isSpawn = false ∧ c.todo = 0)
      (hcall : begun = s.begun + 1 ∧ c = .commit none none ∨
        begun = s.begun ∧ c = .wait ⟨s.committed, s.begun, s.callers.all fun c => !c.inCommit⟩) :
      PoolEffect s a { s with
        begun
        callers := s.callers.set i c }
  | paused {a : PoolAct} (paused : Bool) : PoolEffect s a { s with paused }

theorem poolStep_effect (h : poolStep s a = some s') : PoolEffect s a s' := by
  cases a with
  | worker i =>
    obtain ⟨w, hw, hmap⟩ := bind_eq_some_iff.1 h
    obtain ⟨⟨s₁, w'⟩, hstep, rfl⟩ := map_eq_some_iff.1 hmap
    exact .worker hw (workerStep_effect hstep)
  | caller i right =>
    obtain ⟨c, hc, hmap⟩ := bind_eq_some_iff.1 h
    obtain ⟨⟨s₁, c'⟩, hstep, rfl⟩ := map_eq_some_iff.1 hmap
    exact .caller hc hstep (callerStep_effect hstep)
  | commit i =>
    rw [poolStep] at h
    split_ifs at h with hc
    cases h
    exact .call hc ⟨rfl, rfl, rfl, rfl⟩ (.inl ⟨rfl, rfl⟩)
  | wait i =>
    rw [poolStep] at h
    split_ifs at h with hc
    cases h
    exact .call hc ⟨rfl, rfl, rfl, rfl⟩ (.inr ⟨rfl, rfl⟩)
  | pause =>
    cases h
    exact .paused true
  | resume =>
    cases h
    exact .paused false

/-! ## What the counters count -/

structure Counts (s : Pool) : Prop where
  cur : s.curThreadNum + s.callers.countP addsCur = s.workers.countP counted
  idle : s.idleThreadNum + s.callers.countP addsIdle = s.workers.countP idling

theorem counts_step (hinv : Counts s) (h : poolStep s a = some s') : Counts s' := by
  obtain ⟨hcur, hidle⟩ := hinv
  cases poolStep_effect h with
  | @worker i w w' s₁ hw heffect =>
    have hcounted := countP_set hw w' counted
    have hidling := countP_set hw w' idling
    have hcur' := heffect.cur
    have hidle' := heffect.idle
    constructor <;> dsimp only <;> rw [heffect.workers, heffect.callers] <;> omega
  | @caller i right c c' s₁ hc hstep heffect =>
    have haddsCur := countP_set hc c' addsCur
    have haddsIdle := countP_set hc c' addsIdle
    have hcur' := heffect.cur
    have hidle' := heffect.idle
    constructor <;> dsimp only <;> rw [heffect.callers] <;> omega
  | @call _ i begun c hc hplain =>
    have haddsCur := countP_set hc c addsCur
    have haddsIdle := countP_set hc c addsIdle
    rw [hplain.1] at haddsCur
    rw [hplain.2.1] at haddsIdle
    dsimp only [addsCur, addsIdle, Bool.toNat_false] at haddsCur haddsIdle
    constructor <;> dsimp only <;> omega
  | paused => exact ⟨hcur, hidle⟩

theorem Counts.cur_le_liveNum (hinv : Counts s) : s.curThreadNum ≤ s.liveNum := by
  have hle : s.workers.countP counted ≤ s.workers.countP live := by
    refine countP_mono_left fun w _ hw => ?_
    cases w <;> simp_all
  have hcur := hinv.cur
  unfold liveNum
  omega

theorem counts_started (h : poolStarted s) : Counts s := by
  obtain ⟨minThreadNum, maxThreadNum, startThreads, n, -, rfl⟩ := h
  constructor <;> simp [poolStart, addsCur, addsIdle]

/-! ## The number of threads -/

/-- Not below `min_thread_num`, once `start` is done. -/
structure AtLeast (s : Pool) : Prop where
  bounds : s.minThreadNum ≤ s.maxThreadNum
  mutex : s.workers.countP holdsTaskMutex ≤ 1
  deleting : .deleting ∈ s.workers → s.minThreadNum < s.curThreadNum
  todo : s.minThreadNum ≤ s.curThreadNum + (s.callers.map todo).sum

theorem countP_of_taskMutexFree (h : s.taskMutexFree) : s.workers.countP holdsTaskMutex = 0 := by
  rw [countP_eq_zero]
  intro w hw
  simpa using all_eq_true.1 h w hw

theorem not_deleting_of_retires {i : Nat} (hmutex : s.workers.countP holdsTaskMutex ≤ 1)
    (hw : s.workers[i]? = some .deleting) (hw' : w' = .deletedCur) : .deleting ∉ s.workers.set i w' := by
  subst hw'
  have hcount := countP_set hw .deletedCur fun w => w = .deleting
  have hle : s.workers.countP (fun w => w = .deleting) ≤ s.workers.countP holdsTaskMutex := by
    refine countP_mono_left fun w _ hw => ?_
    rw [of_decide_eq_true hw]
    rfl
  intro hmem
  have hpos : 0 < (s.workers.set i .deletedCur).countP (fun w => w = .deleting) :=
    countP_pos_iff.2 ⟨_, hmem, decide_eq_true rfl⟩
  rw [decide_eq_true rfl, decide_eq_false (by simp), Bool.toNat_true, Bool.toNat_false] at hcount
  omega

theorem atLeast_step (hinv : AtLeast s) (h : poolStep s a = some s') : AtLeast s' := by
  obtain ⟨hbounds, hmutex, hdeleting, htodo⟩ := hinv
  cases poolStep_effect h with
  | @worker i w w' s₁ hw heffect =>
    refine ⟨?_, ?_, ?_, ?_⟩ <;> dsimp only
    · rw [heffect.minThreadNum, heffect.maxThreadNum]
      exact hbounds
    · rw [heffect.workers]
      have hcount := countP_set hw w' holdsTaskMutex
      cases hholds : w'.holdsTaskMutex with
      | false =>
        rw [hholds, Bool.toNat_false] at hcount
        omega
      | true =>
        rw [hholds, Bool.toNat_true] at hcount
        rcases heffect.mutex hholds with hheld | hfree
        · rw [hheld, Bool.toNat_true] at hcount
          omega
        · have hnone := countP_of_taskMutexFree hfree
          omega
    · intro hmem
      rw [heffect.minThreadNum]
      rw [heffect.workers] at hmem
      by_cases hretires : w = .deleting
      · exact absurd hmem (not_deleting_of_retires hmutex (hretires ▸ hw) (heffect.retires hretires))
      · rw [heffect.stays hretires]
        rcases mem_or_eq_of_mem_set hmem with hold | hnew
        · exact hdeleting hold
        · exact heffect.deleting hnew.symm
    · rw [heffect.minThreadNum, heffect.callers]
      by_cases hretires : w = .deleting
      · have hmany := hdeleting (hretires ▸ mem_of_getElem? hw)
        have hcur := heffect.cur
        rw [heffect.retires hretires, hretires] at hcur
        dsimp only [counted, Bool.toNat_true, Bool.toNat_false] at hcur
        omega
      · rw [heffect.stays hretires]
        exact htodo
  | @caller i right c c' s₁ hc hstep heffect =>
    have hsum := sum_set hc c' todo
    have hgrows := heffect.grows
    refine ⟨?_, ?_, ?_, ?_⟩ <;> dsimp only
    · rw [heffect.minThreadNum, heffect.maxThreadNum]
      exact hbounds
    · rcases heffect.workers with hsame | hmore
      · rw [hsame]
        exact hmutex
      · rw [hmore, countP_append]
        exact hmutex
    · intro hmem
      have hold : .deleting ∈ s.workers := by
        rcases heffect.workers with hsame | hmore
        · rwa [hsame] at hmem
        · simpa [hmore] using hmem
      have := hdeleting hold
      rw [heffect.minThreadNum]
      omega
    · rw [heffect.minThreadNum, heffect.callers]
      rcases heffect.todo with hless | hfull <;> omega
  | @call _ i begun c hc hplain =>
    have hsum := sum_set hc c todo
    dsimp only [todo] at hsum
    refine ⟨hbounds, hmutex, hdeleting, ?_⟩
    dsimp only
    omega
  | paused => exact ⟨hbounds, hmutex, hdeleting, htodo⟩

theorem atLeast_started (h : poolStarted s) : AtLeast s := by
  obtain ⟨minThreadNum, maxThreadNum, startThreads, n, hle, rfl⟩ := h
  refine ⟨hle, by simp [poolStart], by simp [poolStart], ?_⟩
  simp only [poolStart, map_cons, sum_cons, todo]
  omega

/-- Once `start` has returned, there are at least `min_thread_num` threads, in every run. -/
theorem minThreadNum_le_liveNum (hcounts : Counts s) (hinv : AtLeast s) (hstarted : s.started) :
    s.minThreadNum ≤ s.liveNum := by
  have hsum : (s.callers.map todo).sum = 0 := by
    rw [List.sum_eq_zero_iff_forall_eq_nat]
    intro n hn
    obtain ⟨c, hc, rfl⟩ := List.mem_map.1 hn
    exact todo_of_not_inStart (by simpa using List.all_eq_true.1 hstarted c hc)
  have htodo := hinv.todo
  have hle := hcounts.cur_le_liveNum
  omega

theorem liveNum_step (hinv : s.liveNum + s.spawningNum ≤ s.maxThreadNum) (hroom : s.roomForThread a)
    (h : poolStep s a = some s') : s'.liveNum + s'.spawningNum ≤ s'.maxThreadNum := by
  cases poolStep_effect h with
  | @worker i w w' s₁ hw heffect =>
    have hcount := countP_set hw w' live
    have hlive := heffect.live
    unfold liveNum spawningNum at hinv ⊢
    dsimp only
    rw [heffect.workers, heffect.callers, heffect.maxThreadNum]
    omega
  | @caller i right c c' s₁ hc hstep heffect =>
    have hcount := countP_set hc c' isSpawn
    have hle := Bool.toNat_le c'.isSpawn
    rcases heffect.live with hless | ⟨⟨ret, rfl⟩, hfound, rfl⟩
    · unfold liveNum spawningNum at *
      dsimp only
      rw [heffect.callers, heffect.maxThreadNum]
      omega
    · -- `createThread` has found room
      rw [roomForThread, hc] at hroom
      have hleft : s₁.liveNum + s₁.spawningNum < s₁.maxThreadNum := by
        simpa [isCreate, Int.not_le.2 hfound] using hroom
      unfold liveNum spawningNum at *
      dsimp only
      omega
  | @call _ i begun c hc hplain =>
    have hcount := countP_set hc c isSpawn
    rw [hplain.2.2.1] at hcount
    dsimp only [isSpawn, Bool.toNat_false] at hcount
    unfold liveNum spawningNum at *
    dsimp only
    omega
  | paused => exact hinv

theorem liveNum_started (h : poolStarted s) : s.liveNum + s.spawningNum ≤ s.maxThreadNum := by
  obtain ⟨minThreadNum, maxThreadNum, startThreads, n, -, rfl⟩ := h
  simp [poolStart, liveNum, spawningNum, isSpawn, countP_replicate]

/-- Once `start` has returned, the number of threads is between `min_thread_num` and `max_thread_num`, as long as
    every `createThread` that finds room finds it for all threads that run or are about to. -/
theorem liveNum_within_bounds {s : Pool} (h : Reachable poolStep (fun s a => s.roomForThread a = true) poolStarted s)
    (hstarted : s.started = true) : s.minThreadNum ≤ s.liveNum ∧ s.liveNum ≤ s.maxThreadNum := by
  have hcounts : Counts s := h.invariant (fun _ => counts_started) fun _ _ _ hinv _ hs => counts_step hinv hs
  have hleast : AtLeast s := h.invariant (fun _ => atLeast_started) fun _ _ _ hinv _ hs => atLeast_step hinv hs
  have hmost : s.liveNum + s.spawningNum ≤ s.maxThreadNum :=
    h.invariant (I := fun s => s.liveNum + s.spawningNum ≤ s.maxThreadNum) (fun _ => liveNum_started)
      fun _ _ _ hinv hroom hs => liveNum_step hinv hroom hs
  exact ⟨minThreadNum_le_liveNum hcounts hleast hstarted, le_trans (Nat.le_add_right _ _) hmost⟩

/-- One thread is started, and a task is committed while it is idle. -/
theorem liveNum_within_bounds_committed : ∃ s,
    Reachable poolStep (fun s a => s.roomForThread a = true) poolStarted s ∧ s.started = true ∧ s.tasks = [0] ∧
    s.minThreadNum = 1 ∧ s.maxThreadNum = 2 ∧ s.minThreadNum ≤ s.liveNum ∧ s.liveNum ≤ s.maxThreadNum := by
  refine exists_reached (replicate 6 (.caller 0 false) ++ [.commit 1] ++ replicate 4 (.caller 1 false))
    ⟨1, 2, 0, 1, by decide, rfl⟩ (by decide +kernel) fun s hreach hrun => ?_
  have hstarted : s.started := of_run hrun (by decide +kernel)
  exact ⟨hstarted, of_run hrun (by decide +kernel), of_run hrun (by decide +kernel), of_run hrun (by decide +kernel),
    liveNum_within_bounds hreach hstarted⟩

/-- Two calls of `commit` find the same place free, and there are three threads instead of two. -/
theorem liveNum_exceeds_maxThreadNum : ∃ s, Reachable poolStep Always poolStarted s ∧ s.started = true ∧
    s.maxThreadNum = 2 ∧ s.liveNum = 3 := by
  exact exists_reached (replicate 6 (.caller 0 false) ++ [.commit 1] ++ replicate 4 (.caller 1 false) ++
    [.commit 1, .commit 2] ++ replicate 5 (.caller 1 false) ++ replicate 5 (.caller 2 false) ++
    [.caller 1 false, .caller 2 false]) ⟨1, 2, 0, 2, by decide, rfl⟩ (by decide +kernel)
    fun s _ hrun => of_run hrun (by decide +kernel)

end HvVerified.Cpputil
