import HvVerified.Cpputil.Proofs.ThreadPoolProofs

/-!
# Proofs: `HThreadPool::wait`

While no call of `commit` runs, `tasks` stays empty once it is, and `idle_thread_num` is `cur_thread_num` less the busy
workers, except between the two updates of `delThread`. What a call of `wait` has read is compared with this.
-/

namespace HvVerified.Cpputil

open Lib List Option Caller Worker Pool

def Resting (s : Pool) : Prop := ∀ w ∈ s.workers, w.busy = false

/-- A task that was committed waits, is executed, or has been. -/
def TasksKept (s : Pool) : Prop :=
  ∀ task ∈ s.committed, task ∈ s.tasks ∨ .running task ∈ s.workers ∨ task ∈ s.finished

/-- No `commit` has run since the call. -/
def WaitCall.Quiet (call : WaitCall) (s : Pool) : Prop := call.calm ∧ call.begun = s.begun

structure WaitCall.Fits (call : WaitCall) (s : Pool) : Prop where
  begun : call.begun ≤ s.begun
  before : ∀ task ∈ call.before, task ∈ s.committed
  quiet : call.Quiet s → ∀ c ∈ s.callers, c.inCommit = false

/-- What has been read of `idle_thread_num == cur_thread_num`. -/
def ReadsRight (s : Pool) : Option Int → Option Int → Prop
  | none, none => True
  | some idle, none => idle = s.curThreadNum → Resting s
  | none, some cur => cur = s.curThreadNum
  | some idle, some cur => idle = cur → Resting s

def WaitRight (s : Pool) : Caller → Prop
  | .wait call => call.Fits s
  | .waitRead call idle cur => call.Fits s ∧ (call.Quiet s → s.tasks = [] ∧ ReadsRight s idle cur)
  | .waited call quiet => quiet → ∀ task ∈ call.before, task ∈ s.finished
  | _ => True

variable {s s' : Pool} {c c' : Caller} {a : PoolAct} {right : Bool}

/-! ## The tasks -/

theorem mem_set_of_ne {α : Type} {l : List α} {i : Nat} {x y z : α} (hx : x ∈ l) (hy : l[i]? = some y) (hne : x ≠ y) :
    x ∈ l.set i z := by
  obtain ⟨j, hj⟩ := mem_iff_getElem?.1 hx
  refine mem_iff_getElem?.2 ⟨j, ?_⟩
  have hij : i ≠ j := by
    rintro rfl
    exact hne (some.inj (hj.symm.trans hy))
  rw [getElem?_set_ne hij, hj]

theorem mem_set_self {α : Type} {l : List α} {i : Nat} {y z : α} (hy : l[i]? = some y) : z ∈ l.set i z := by
  obtain ⟨hi, -⟩ := List.getElem?_eq_some_iff.1 hy
  exact List.mem_iff_getElem?.2 ⟨i, by rw [List.getElem?_set_self hi]⟩

theorem tasksKept_step (hinv : TasksKept s) (h : poolStep s a = some s') : TasksKept s' := by
  cases poolStep_effect h with
  | @worker i w w' s₁ hw heffect =>
    intro task htask
    rw [heffect.committed] at htask
    rw [heffect.workers]
    rcases hinv task htask with hwaits | hruns | hdone
    · rcases heffect.tasks task hwaits with hstill | hnow
      · exact .inl hstill
      · rw [hnow]
        exact .inr (.inl (mem_set_self hw))
    · by_cases hthis : w = .running task
      · exact .inr (.inr (heffect.running task hthis))
      · exact .inr (.inl (mem_set_of_ne hruns hw (fun heq => hthis heq.symm)))
    · exact .inr (.inr (heffect.finished task hdone))
  | @caller i right c c' s₁ hc hstep heffect =>
    intro task htask
    rw [heffect.finished]
    have hworkers : running task ∈ s.workers → .running task ∈ s₁.workers := by
      intro hruns
      rcases heffect.workers with hsame | hmore
      · rwa [hsame]
      · rw [hmore]
        exact mem_append_left _ hruns
    rcases heffect.tasks with ⟨htasks, hcommitted⟩ | ⟨new, htasks, hcommitted⟩
    · rw [htasks]
      rw [hcommitted] at htask
      exact (hinv task htask).imp_right (Or.imp_left hworkers)
    · rw [htasks]
      rw [hcommitted, mem_append] at htask
      rcases htask with hold | hnew
      · exact (hinv task hold).imp (mem_append_left _) (Or.imp_left hworkers)
      · exact .inl (mem_append_right _ hnew)
  | call | paused => exact hinv

theorem TasksKept.finished (hinv : TasksKept s) (htasks : s.tasks = []) (hrest : Resting s) {task : Nat}
    (h : task ∈ s.committed) : task ∈ s.finished := by
  rcases hinv task h with hwaits | hruns | hdone
  · rw [htasks] at hwaits
    cases hwaits
  · cases hrest _ hruns
  · exact hdone

/-! ## What the steps do to a call of `wait` -/

theorem countP_counted {workers : List Worker} (h : ∀ w ∈ workers, w ≠ .deletedCur) :
    workers.countP counted = workers.countP idling + workers.countP busy := by
  induction workers with
  | nil => rfl
  | cons w workers ih =>
    have hrest := ih fun w hw => h w (mem_cons_of_mem _ hw)
    have hw := h w mem_cons_self
    rw [countP_cons, countP_cons, countP_cons]
    cases w <;> simp at hw ⊢ <;> omega

theorem resting_of_eq (hcounts : Counts s) (hquiet : ∀ c ∈ s.callers, c.inCommit = false)
    (happart : ∀ w ∈ s.workers, w ≠ .deletedCur) (heq : s.idleThreadNum = s.curThreadNum) : Resting s := by
  have hcur : s.callers.countP addsCur = 0 := countP_eq_zero.2 fun c hc hadds => by
    have := hquiet c hc
    cases c <;> simp_all [addsCur, inCommit]
  have hcounts₁ := hcounts.cur
  have hcounts₂ := hcounts.idle
  have hbusy := countP_counted happart
  have hnone : s.workers.countP busy = 0 := by omega
  intro w hw
  exact Bool.eq_false_iff.2 (countP_eq_zero.1 hnone w hw)

/-- What has been read stays right while the workers rest, if `cur_thread_num` does not change between the reads. -/
theorem ReadsRight.mono (call : WaitCall) {idle cur : Option Int} (hrest : Resting s → Resting s')
    (hcur : (waitRead call idle cur).betweenReads → s'.curThreadNum = s.curThreadNum)
    (h : ReadsRight s idle cur) : ReadsRight s' idle cur := by
  cases idle with
  | none =>
    cases cur with
    | none => trivial
    | some cur => exact h.trans (hcur rfl).symm
  | some idle =>
    cases cur with
    | none => exact fun heq => hrest (h (heq.trans (hcur rfl)))
    | some cur => exact fun heq => hrest (h heq)

theorem WaitRight.of_same (hbegun : s'.begun = s.begun) (hcommitted : s'.committed = s.committed)
    (hfinished : s'.finished = s.finished) (htasks : s'.tasks = s.tasks) (hworkers : s'.workers = s.workers)
    (hcur : s'.curThreadNum = s.curThreadNum)
    (hcallers : (∀ c ∈ s.callers, c.inCommit = false) → ∀ c ∈ s'.callers, c.inCommit = false)
    (h : WaitRight s c) : WaitRight s' c := by
  have hquiet : ∀ {call : WaitCall}, call.Quiet s' → call.Quiet s := by
    rintro call ⟨hcalm, heq⟩
    exact ⟨hcalm, heq.trans hbegun⟩
  have hfits : ∀ {call : WaitCall}, call.Fits s → call.Fits s' := by
    rintro call ⟨hle, hbefore, hin⟩
    exact ⟨by rw [hbegun]; exact hle, by rw [hcommitted]; exact hbefore, fun hq => hcallers (hin (hquiet hq))⟩
  cases c with
  | wait call => exact hfits h
  | waitRead call idle cur =>
    refine ⟨hfits h.1, fun hq => ?_⟩
    obtain ⟨hempty, hreads⟩ := h.2 (hquiet hq)
    exact ⟨htasks.trans hempty, hreads.mono call (fun hrest w hw => hrest w (hworkers ▸ hw)) fun _ => hcur⟩
  | waited call quiet =>
    intro hq
    rw [hfinished]
    exact h hq
  | _ => trivial

theorem WaitRight.of_disturbed (hbegun : s.begun ≤ s'.begun) (hcommitted : ∀ task ∈ s.committed, task ∈ s'.committed)
    (hfinished : s'.finished = s.finished) (hloud : ∀ call : WaitCall, call.Fits s → ¬ call.Quiet s')
    (h : WaitRight s c) : WaitRight s' c := by
  have hfits : ∀ {call : WaitCall}, call.Fits s → call.Fits s' := fun hfit =>
    ⟨le_trans hfit.begun hbegun, fun task htask => hcommitted task (hfit.before task htask),
      fun hq => absurd hq (hloud _ hfit)⟩
  cases c with
  | wait call => exact hfits h
  | waitRead call idle cur => exact ⟨hfits h.1, fun hq => absurd hq (hloud _ h.1)⟩
  | waited call quiet =>
    intro hq
    rw [hfinished]
    exact h hq
  | _ => trivial

theorem waitRight_worker {i : Nat} {w w' : Worker} {s₁ : Pool} (hw : s.workers[i]? = some w)
    (heffect : WorkerEffect s w s₁ w') (happart : w = .deleting → c.betweenReads = false) (h : WaitRight s c) :
    WaitRight { s₁ with workers := s₁.workers.set i w' } c := by
  have hfits : ∀ {call : WaitCall}, call.Fits s → call.Fits { s₁ with workers := s₁.workers.set i w' } := by
    rintro call ⟨hle, hbefore, hin⟩
    refine ⟨by rw [heffect.begun]; exact hle, by rw [heffect.committed]; exact hbefore, fun hq => ?_⟩
    rw [heffect.callers]
    exact hin ⟨hq.1, hq.2.trans heffect.begun⟩
  cases c with
  | wait call => exact hfits h
  | waitRead call idle cur =>
    refine ⟨hfits h.1, fun hq => ?_⟩
    obtain ⟨hempty, hreads⟩ := h.2 ⟨hq.1, hq.2.trans heffect.begun⟩
    obtain ⟨hempty', hbusy⟩ := heffect.empty hempty
    -- without tasks, a worker that rests goes on resting
    have hrest : Resting s → Resting { s₁ with workers := s₁.workers.set i w' } := by
      intro hrest v hv
      rw [heffect.workers] at hv
      rcases mem_or_eq_of_mem_set hv with hold | rfl
      · exact hrest v hold
      · have hidle := hrest w (mem_of_getElem? hw)
        exact Bool.eq_false_iff.2 fun hb => by
          rw [hbusy hb] at hidle
          cases hidle
    have hcur : (waitRead call idle cur).betweenReads → s₁.curThreadNum = s.curThreadNum := by
      intro hbetween
      refine heffect.stays fun hdel => ?_
      rw [happart hdel] at hbetween
      cases hbetween
    exact ⟨hempty', hreads.mono _ hrest hcur⟩
  | waited call quiet => exact fun hq task htask => heffect.finished task (h hq task htask)
  | _ => trivial

theorem waitRight_callerStep (hcounts : Counts s) (htasks : TasksKept s) (hin : c.inCommit = false)
    (happart : c.readsIdle right → ∀ w ∈ s.workers, w ≠ .deletedCur) (h : WaitRight s c)
    (hstep : s.callerStep right c = some (s', c')) : WaitRight s c' := by
  cases c with
  | outside => cases hstep
  | wait call =>
    rw [callerStep] at hstep
    split_ifs at hstep with hempty
    · cases hstep
      exact ⟨h, fun _ => ⟨isEmpty_iff.1 hempty, trivial⟩⟩
    · cases hstep
      exact h
  | waitRead call idle cur =>
    obtain ⟨hfits, hquiet⟩ := h
    cases idle with
    | none =>
      cases cur with
      | none =>
        rw [callerStep] at hstep
        split_ifs at hstep with hright
        · cases hstep
          exact ⟨hfits, fun hq => ⟨(hquiet hq).1, rfl⟩⟩
        · cases hstep
          refine ⟨hfits, fun hq => ⟨(hquiet hq).1, fun heq => ?_⟩⟩
          exact resting_of_eq hcounts (hfits.quiet hq) (happart (by simpa [readsIdle] using hright)) heq
      | some cur =>
        cases hstep
        refine ⟨hfits, fun hq => ⟨(hquiet hq).1, fun heq => ?_⟩⟩
        exact resting_of_eq hcounts (hfits.quiet hq) (happart rfl) (heq.trans (hquiet hq).2)
    | some idle =>
      cases cur with
      | none =>
        cases hstep
        exact ⟨hfits, fun hq => ⟨(hquiet hq).1, (hquiet hq).2⟩⟩
      | some cur =>
        rw [callerStep] at hstep
        split_ifs at hstep with heq
        · cases hstep
          intro hq task htask
          obtain ⟨hempty, hrest⟩ := hquiet (by simpa [WaitCall.Quiet] using hq)
          exact htasks.finished hempty (hrest heq) (hfits.before task htask)
        · cases hstep
          exact hfits
  | waited call quiet =>
    cases hstep
    trivial
  | _ => cases hin

theorem inCommit_set {callers : List Caller} {i : Nat} (hc : c.inCommit = false)
    (hall : ∀ d ∈ callers, d.inCommit = false) : ∀ d ∈ callers.set i c, d.inCommit = false := by
  intro d hd
  rcases mem_or_eq_of_mem_set hd with hold | rfl
  · exact hall d hold
  · exact hc

/-! ## The barrier -/

structure WaitInv (s : Pool) : Prop where
  counts : Counts s
  tasks : TasksKept s
  waits : ∀ c ∈ s.callers, WaitRight s c

theorem waitInv_step (hinv : WaitInv s) (happart : s.retiresApart a) (h : poolStep s a = some s') : WaitInv s' := by
  obtain ⟨hcounts, htasks, hwaits⟩ := hinv
  refine ⟨counts_step hcounts h, tasksKept_step htasks h, ?_⟩
  cases poolStep_effect h with
  | @worker i w w' s₁ hw heffect =>
    intro c hc
    rw [show _ = s.callers from heffect.callers] at hc
    refine waitRight_worker hw heffect (fun hdel => ?_) (hwaits c hc)
    subst hdel
    rw [retiresApart, hw] at happart
    have hall : s.callers.all (fun c => !c.betweenReads) := by simpa using happart
    simpa using all_eq_true.1 hall c hc
  | @caller i right c c' s₁ hc hstep heffect =>
    have hmem := mem_of_getElem? hc
    cases hin : c.inCommit with
    | false =>
      obtain ⟨rfl, hout⟩ := heffect.outside hin
      have hsame : ∀ {d}, WaitRight s₁ d → WaitRight { s₁ with callers := s₁.callers.set i c' } d :=
        WaitRight.of_same rfl rfl rfl rfl rfl rfl (inCommit_set hout)
      intro d hd
      rcases mem_or_eq_of_mem_set hd with hold | rfl
      · exact hsame (hwaits d hold)
      · refine hsame (waitRight_callerStep hcounts htasks hin (fun hreads w hw => ?_) (hwaits c hmem) hstep)
        rw [retiresApart, hc] at happart
        have hall : s₁.workers.all (fun w => w ≠ .deletedCur) := by simpa [hreads] using happart
        simpa using all_eq_true.1 hall w hw
    | true =>
      intro d hd
      rw [heffect.callers] at hd
      rcases mem_or_eq_of_mem_set hd with hold | rfl
      · refine (hwaits d hold).of_disturbed (le_of_eq heffect.begun.symm) (fun task htask => ?_) heffect.finished
          fun call hfits hq => ?_
        · rcases heffect.tasks with ⟨-, hcommitted⟩ | ⟨new, -, hcommitted⟩
          · exact hcommitted ▸ htask
          · exact hcommitted ▸ mem_append_left _ htask
        · have := hfits.quiet ⟨hq.1, hq.2.trans heffect.begun⟩ c hmem
          rw [hin] at this
          cases this
      · rcases heffect.inside hin with hstill | rfl
        · cases d <;> trivial
        · trivial
  | @call _ i begun c hc hplain hcall =>
    intro d hd
    rcases hcall with ⟨rfl, rfl⟩ | ⟨rfl, rfl⟩
    · rcases mem_or_eq_of_mem_set hd with hold | rfl
      · refine (hwaits d hold).of_disturbed (Nat.le_succ _) (fun _ htask => htask) rfl fun call hfits hq => ?_
        have hle := hfits.begun
        have heq := hq.2
        dsimp only at heq
        omega
      · trivial
    · rcases mem_or_eq_of_mem_set hd with hold | rfl
      · exact WaitRight.of_same (s := s) rfl rfl rfl rfl rfl rfl (inCommit_set rfl) (hwaits d hold)
      · refine ⟨le_rfl, fun _ htask => htask, fun hq => inCommit_set rfl fun c hc => ?_⟩
        simpa using all_eq_true.1 hq.1 c hc
  | paused => exact fun c hc => WaitRight.of_same (s := s) rfl rfl rfl rfl rfl rfl id (hwaits c hc)

theorem waitInv_started (h : poolStarted s) : WaitInv s := by
  refine ⟨counts_started h, ?_, ?_⟩
  · obtain ⟨minThreadNum, maxThreadNum, startThreads, n, -, rfl⟩ := h
    intro task htask
    cases htask
  · obtain ⟨minThreadNum, maxThreadNum, startThreads, n, -, rfl⟩ := h
    intro c hc
    rcases mem_cons.1 hc with rfl | hout
    · trivial
    · rw [eq_of_mem_replicate hout]
      trivial

/-- When a call of `wait` has returned and no `commit` has run meanwhile, the tasks committed before are finished, as
    long as no thread retires between the two reads of `wait`, and `wait` reads nothing between the two updates of
    `delThread`. -/
theorem wait_barrier {s : Pool} (h : Reachable poolStep (fun s a => s.retiresApart a = true) poolStarted s)
    {call : WaitCall} (hwaited : .waited call true ∈ s.callers) : ∀ task ∈ call.before, task ∈ s.finished := by
  have hinv : WaitInv s := h.invariant (fun _ => waitInv_started) fun _ _ _ hinv happart hs => waitInv_step hinv happart hs
  exact hinv.waits _ hwaited rfl

/-- A task is committed and executed, and `wait` returns. -/
theorem wait_barrier_done : ∃ s, Reachable poolStep (fun s a => s.retiresApart a = true) poolStarted s ∧
    .waited ⟨[0], 1, true⟩ true ∈ s.callers ∧ 0 ∈ s.finished := by
  refine exists_reached (replicate 6 (.caller 0 false) ++ [.commit 1] ++ replicate 4 (.caller 1 false) ++ [.wait 0] ++
    replicate 5 (.worker 0) ++ replicate 4 (.caller 0 false)) ⟨1, 2, 0, 1, by decide, rfl⟩ (by decide +kernel)
    fun s hreach hrun => ?_
  have hwaited : waited ⟨[0], 1, true⟩ true ∈ s.callers := of_run hrun (by decide +kernel)
  exact ⟨hwaited, wait_barrier hreach hwaited 0 mem_cons_self⟩

/-- An idle thread retires between the reads of `idle_thread_num` and `cur_thread_num`: `wait` returns while the other
    thread executes the task. -/
theorem wait_returns_early : ∃ s, Reachable poolStep Always poolStarted s ∧
    .waited ⟨[0], 1, true⟩ true ∈ s.callers ∧ .running 0 ∈ s.workers ∧ s.finished = [] := by
  exact exists_reached (replicate 11 (.caller 0 false) ++ [.commit 1] ++ replicate 4 (.caller 1 false) ++
    replicate 3 (.worker 0) ++ [.wait 0, .caller 0 false, .caller 0 false] ++ replicate 5 (.worker 1) ++
    [.caller 0 false, .caller 0 false]) ⟨1, 2, 2, 1, by decide, rfl⟩ (by decide +kernel)
    fun s _ hrun => of_run hrun (by decide +kernel)

/-! ## Every task once -/

/-- A task waits, is executed or has been executed as often as it was committed. -/
def TasksOnce (s : Pool) : Prop := ∀ task,
  s.tasks.count task + s.workers.countP (· = .running task) + s.finished.count task = s.committed.count task

theorem count_workerStep {w w' : Worker} (h : s.workerStep w = some (s', w')) (task : Nat) :
    s'.tasks.count task + (decide (w' = .running task)).toNat + s'.finished.count task =
      s.tasks.count task + (decide (w = .running task)).toNat + s.finished.count task := by
  unfold workerStep at h
  split at h <;> grind [Bool.toNat]

theorem tasksOnce_step (hinv : TasksOnce s) (h : poolStep s a = some s') : TasksOnce s' := by
  intro task
  have hold := hinv task
  cases a with
  | worker i =>
    obtain ⟨w, hw, hmap⟩ := bind_eq_some_iff.1 h
    obtain ⟨⟨s₁, w'⟩, hstep, rfl⟩ := map_eq_some_iff.1 hmap
    have heffect := workerStep_effect hstep
    have hcount := countP_set hw w' (· = .running task)
    have hstill := count_workerStep hstep task
    dsimp only
    rw [heffect.workers, heffect.committed]
    omega
  | caller =>
    cases poolStep_effect h with
    | @caller _ _ _ _ s₁ _ _ heffect =>
      have hworkers : s₁.workers.countP (· = .running task) = s.workers.countP (· = .running task) := by
        rcases heffect.workers with hsame | hmore
        · rw [hsame]
        · simp [hmore]
      dsimp only
      rw [heffect.finished, hworkers]
      rcases heffect.tasks with ⟨htasks, hcommitted⟩ | ⟨new, htasks, hcommitted⟩
      · rwa [htasks, hcommitted]
      · rw [htasks, hcommitted, count_append, count_append]
        omega
    | call | paused => exact hold
  | _ => cases poolStep_effect h <;> exact hold

theorem tasks_once {s : Pool} (h : Reachable poolStep Always poolStarted s) : TasksOnce s := by
  refine h.invariant ?_ fun _ _ _ hinv _ hs => tasksOnce_step hinv hs
  rintro _ ⟨_, _, _, _, -, rfl⟩ task
  rfl

/-- A task that is executed. -/
theorem tasks_once_running : ∃ s, Reachable poolStep Always poolStarted s ∧ .running 0 ∈ s.workers ∧ TasksOnce s := by
  refine exists_reached (replicate 6 (.caller 0 false) ++ [.commit 1] ++ replicate 4 (.caller 1 false) ++
    replicate 3 (.worker 0)) ⟨1, 1, 0, 1, by decide, rfl⟩ (by decide +kernel)
    fun s hreach hrun => ⟨of_run hrun (by decide +kernel), tasks_once hreach⟩

end HvVerified.Cpputil
