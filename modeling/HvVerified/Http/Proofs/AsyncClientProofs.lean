import HvVerified.Http.AsyncHttpClient
import HvVerified.Http.Proofs.ClientReuseProofs
import HvVerified.Lib.Holders

/-!
# Tasks of the asynchronous client

Every task that was sent is in one place: in the queue, in a retry timer, on a channel, or done. A pooled
connection has a channel without a task. Both are kept by each step, as long as a redirect status without a
`Location` does not leave a task on a connection that goes to the pool.
-/

namespace HvVerified.Http.Proofs

open Base Lib List Option AsyncWorld AList

variable {σ : Type} {P : ResponseParser σ} {env : ClientEnv σ} {w w' : AsyncWorld σ} {fd t : Nat}
  {c c' : SocketChannel σ} {x y : List Nat} {p : ClientParser σ}

def attached (w : AsyncWorld σ) : List Nat := held (fun c => c.ctx.task) w.channels

/-- How often a task is in the queue, in the retry timers, on the channels and done. -/
def places (w : AsyncWorld σ) (u : Nat) : Nat :=
  w.queue.count u + w.retries.count u + (attached w).count u + w.called.count u

/-- Every task is in one place, where `x` are the tasks in hand, and the pooled connections are idle. -/
structure Tidy (w : AsyncWorld σ) (x : List Nat) : Prop where
  once : ∀ u, places w u + x.count u = if u < w.ntasks then 1 else 0
  nodup : ∀ addr, (w.pools addr).Nodup
  pooled : ∀ addr, ∀ fd ∈ w.pools addr, ∃ c, w.channels.lookup fd = some c ∧ c.peeraddr = addr ∧ c.ctx.task = none

/-! ## Operations -/

theorem tidy_updateReq (h : Tidy w x) (i : Nat) (change : AsyncRequest → AsyncRequest) : Tidy (w.updateReq i change) x :=
  ⟨h.once, h.nodup, h.pooled⟩

theorem tidy_move (h : Tidy w x) (hntasks : w'.ntasks = w.ntasks) (hpools : w'.pools = w.pools)
    (hchannels : w'.channels = w.channels) (hplaces : ∀ u, places w' u + y.count u = places w u + x.count u) :
    Tidy w' y := by
  refine ⟨fun u => ?_, ?_, ?_⟩
  · rw [hplaces, hntasks]
    exact h.once u
  · rw [hpools]
    exact h.nodup
  · rw [hpools, hchannels]
    exact h.pooled

theorem tidy_call (h : Tidy w (t :: x)) : Tidy (w.call t) x := by
  refine tidy_move h rfl rfl rfl fun u => ?_
  simp only [places, attached, call, count_append, count_cons, count_nil]
  omega

theorem tidy_enqueue (h : Tidy w (t :: x)) : Tidy (w.enqueue t) x := by
  refine tidy_move h rfl rfl rfl fun u => ?_
  simp only [places, attached, enqueue, count_append, count_cons, count_nil]
  omega

theorem tidy_retry (h : Tidy w (t :: x)) : Tidy { w with retries := w.retries ++ [t] } x := by
  refine tidy_move h rfl rfl rfl fun u => ?_
  simp only [places, attached, count_append, count_cons, count_nil]
  omega

theorem notMem_pool (h : Tidy w x) (hc : w.channels.lookup fd = some c) (ht : c.ctx.task = some t) (addr : ByteString) :
    fd ∉ w.pools addr := by
  intro hmem
  obtain ⟨c', hc', -, hnone⟩ := h.pooled addr fd hmem
  rw [hc] at hc'
  cases hc'
  rw [ht] at hnone
  cases hnone

theorem tidy_setChannel (h : Tidy w x) (hc : w.channels.lookup fd = some c)
    (htask : ∀ u, c'.ctx.task.toList.count u + y.count u = c.ctx.task.toList.count u + x.count u)
    (hpool : (∀ addr, fd ∉ w.pools addr) ∨ (c'.peeraddr = c.peeraddr ∧ c'.ctx.task = none)) :
    Tidy (w.setChannel fd c') y := by
  refine ⟨fun u => ?_, h.nodup, fun addr fd' hmem => ?_⟩
  · have hold := count_held (fun c => c.ctx.task) hc u
    have hnew := count_held_insert (fun c => c.ctx.task) w.channels fd c' u
    refine Eq.trans ?_ (h.once u)
    simp only [places, attached, setChannel]
    have hu := htask u
    omega
  · obtain ⟨c₀, hc₀, haddr, hnone⟩ := h.pooled addr fd' hmem
    by_cases heq : fd' = fd
    · subst heq
      rcases hpool with hpool | ⟨hpeer, hidle⟩
      · exact absurd hmem (hpool addr)
      · rw [hc] at hc₀
        cases hc₀
        exact ⟨c', lookup_insert _, hpeer.trans haddr, hidle⟩
    · exact ⟨c₀, (lookup_insert_ne heq).trans hc₀, haddr, hnone⟩

theorem tidy_setChannel_same (h : Tidy w x) (hc : w.channels.lookup fd = some c) (htask : c'.ctx.task = c.ctx.task)
    (hpeer : c'.peeraddr = c.peeraddr) : Tidy (w.setChannel fd c') x := by
  refine tidy_setChannel h hc (fun u => by rw [htask]) ?_
  cases ht : c.ctx.task with
  | none => exact .inr ⟨hpeer, htask.trans ht⟩
  | some t => exact .inl (notMem_pool h hc ht)

theorem tidy_detach (h : Tidy w x) (hc : w.channels.lookup fd = some c) (ht : c.ctx.task = some t)
    (hnone : c'.ctx.task = none) : Tidy (w.setChannel fd c') (t :: x) := by
  refine tidy_setChannel h hc (fun u => ?_) (.inl (notMem_pool h hc ht))
  rw [hnone, ht]
  simp only [toList_some, toList_none, count_cons, count_nil]
  omega

theorem tidy_attach (h : Tidy w (t :: x)) (hc : w.channels.lookup fd = some c) (hnone : c.ctx.task = none)
    (hfd : ∀ a, fd ∉ w.pools a) (ht : c'.ctx.task = some t) : Tidy (w.setChannel fd c') x := by
  refine tidy_setChannel h hc (fun u => ?_) (.inl hfd)
  rw [hnone, ht]
  simp only [toList_some, toList_none, count_cons, count_nil]
  omega

theorem tidy_newChannel (h : Tidy w x) (hfd : w.channels.lookup fd = none) (hnone : c.ctx.task = none) :
    Tidy (w.setChannel fd c) x := by
  refine ⟨fun u => ?_, h.nodup, fun addr fd' hmem => ?_⟩
  · refine Eq.trans ?_ (h.once u)
    simp only [places, attached, setChannel, count_held_insert, held_erase_of_lookup_none _ hfd, hnone,
      toList_none, count_nil, Nat.zero_add]
  · obtain ⟨c₀, hc₀, haddr, hidle⟩ := h.pooled addr fd' hmem
    have hne : fd' ≠ fd := by
      rintro rfl
      rw [hfd] at hc₀
      cases hc₀
    exact ⟨c₀, (lookup_insert_ne hne).trans hc₀, haddr, hidle⟩

theorem tidy_addPool (h : Tidy w x) (hc : w.channels.lookup fd = some c) (hnone : c.ctx.task = none)
    (hfd : fd ∉ w.pools c.peeraddr) : Tidy (w.setPool c.peeraddr (w.pools c.peeraddr ++ [fd])) x := by
  refine ⟨h.once, fun addr => ?_, fun addr fd' hmem => ?_⟩
  · simp only [setPool]
    split_ifs
    · exact List.Nodup.append (h.nodup _) (nodup_singleton _) (by simpa using hfd)
    · exact h.nodup addr
  · simp only [setPool] at hmem
    split_ifs at hmem with haddr
    · rcases mem_append.1 hmem with hmem | hmem
      · rw [haddr]
        exact h.pooled _ fd' hmem
      · rw [mem_singleton.1 hmem]
        exact ⟨c, hc, haddr.symm, hnone⟩
    · exact h.pooled addr fd' hmem

theorem tidy_removeChannel (h : Tidy w x) (hc : w.channels.lookup fd = some c) (hpool : ∀ addr, fd ∉ w.pools addr) :
    Tidy { w with channels := w.channels.erase fd } (c.ctx.task.toList ++ x) := by
  refine ⟨fun u => ?_, h.nodup, fun addr fd' hmem => ?_⟩
  · have hold := count_held (fun c => c.ctx.task) hc u
    rw [← h.once u]
    simp only [places, attached, count_append]
    omega
  · obtain ⟨c₀, hc₀, haddr, hidle⟩ := h.pooled addr fd' hmem
    have hne : fd' ≠ fd := fun heq => hpool addr (heq ▸ hmem)
    exact ⟨c₀, (lookup_erase_ne hne).trans hc₀, haddr, hidle⟩

theorem tidy_closedTask {ctx : HttpClientContext σ} (h : Tidy w (t :: x)) : Tidy (w.closedTask P ctx t) x := by
  unfold closedTask
  dsimp only
  split_ifs
  · exact tidy_call h
  · exact tidy_call (tidy_updateReq h _ _)
  · exact tidy_retry (tidy_updateReq h _ _)
  · exact tidy_enqueue (tidy_updateReq h _ _)

theorem closedTask_removeChannel (ctx : HttpClientContext σ) (t fd : Nat) :
    { w.closedTask P ctx t with channels := (w.closedTask P ctx t).channels.erase fd } =
      closedTask P { w with channels := w.channels.erase fd } ctx t := by
  unfold closedTask
  dsimp only [request]
  split_ifs <;> rfl

theorem tidy_removePool (h : Tidy w x) (hc : w.channels.lookup fd = some c) :
    Tidy (w.setPool c.peeraddr ((w.pools c.peeraddr).erase fd)) x ∧
      ∀ addr, fd ∉ (w.setPool c.peeraddr ((w.pools c.peeraddr).erase fd)).pools addr := by
  refine ⟨⟨h.once, fun addr => ?_, fun addr fd' hmem => ?_⟩, fun addr => ?_⟩
  · simp only [setPool]
    split_ifs
    · exact (h.nodup _).erase _
    · exact h.nodup addr
  · simp only [setPool] at hmem
    split_ifs at hmem with haddr
    · rw [haddr]
      exact h.pooled _ fd' (mem_of_mem_erase hmem)
    · exact h.pooled addr fd' hmem
  · simp only [setPool]
    split_ifs with haddr
    · exact (h.nodup _).not_mem_erase
    · intro hmem
      obtain ⟨c₀, hc₀, hpeer, -⟩ := h.pooled addr fd hmem
      rw [hc] at hc₀
      cases hc₀
      exact haddr hpeer.symm

theorem tidy_onclose (h : Tidy w x) (hc : w.channels.lookup fd = some c) : Tidy (w.onclose P fd c) x := by
  obtain ⟨hpool, hfd⟩ := tidy_removePool h hc
  have hremove := tidy_removeChannel hpool (c := c) hc hfd
  unfold onclose
  cases ht : c.ctx.task with
  | none =>
    rw [ht] at hremove
    exact hremove
  | some t =>
    rw [ht] at hremove
    rw [closedTask_removeChannel]
    exact tidy_closedTask hremove

theorem tidy_close (h : Tidy w x) (hc : w.channels.lookup fd = some c) (later : Bool) :
    Tidy (w.close P fd c later) x := by
  unfold close
  split_ifs
  · exact h
  · exact tidy_setChannel_same h hc rfl rfl
  · exact tidy_onclose h hc

theorem tidy_sendRequest (h : Tidy w x) (hc : w.channels.lookup fd = some c) (ht : c.ctx.task = some t)
    (htask : c'.ctx.task = some t) (cancelled later : Bool) : Tidy (w.sendRequest P fd c' t cancelled later) x := by
  unfold sendRequest
  dsimp only
  generalize hw₁ : (if cancelled then w.updateReq (w.tasks t) fun r => { r with cancel := true } else w) = w₁
  have h₁ : Tidy w₁ x ∧ w₁.channels = w.channels := by
    rw [← hw₁]
    split_ifs
    · exact ⟨tidy_updateReq h _ _, rfl⟩
    · exact ⟨h, rfl⟩
  have hc₁ : w₁.channels.lookup fd = some c := by
    rw [h₁.2]
    exact hc
  have hset : Tidy (w₁.setChannel fd { c' with ctx := c'.ctx.submit P (w₁.request t).req.isHead }) x := by
    refine tidy_setChannel h₁.1 hc₁ (fun u => ?_) (.inl (notMem_pool h₁.1 hc₁ ht))
    rw [ht, show (c'.ctx.submit P (w₁.request t).req.isHead).task = some t from htask]
  split_ifs
  · exact hset
  · exact tidy_close hset (lookup_insert _) later
  · exact ⟨hset.once, hset.nodup, hset.pooled⟩

/-! ## `doTask` -/

theorem tidy_getConn {req : ClientRequest} {addr : ByteString} {socket : Option Nat} (h : Tidy w x)
    (hsocket : (socket.all fun fd => (w.channels.lookup fd).isNone))
    (hget : w.getConn req addr socket = some (w', fd)) :
    Tidy w' x ∧ (∃ c, w'.channels.lookup fd = some c ∧ c.ctx.task = none) ∧ ∀ a, fd ∉ w'.pools a := by
  unfold getConn at hget
  split at hget
  · next fd' rest hpool =>
    cases hget
    obtain ⟨c, hc, hpeer, hnone⟩ := h.pooled addr fd (by rw [hpool]; exact mem_cons_self)
    have hnodup := h.nodup addr
    rw [hpool, nodup_cons] at hnodup
    refine ⟨⟨h.once, fun a => ?_, fun a k hmem => ?_⟩, ⟨c, hc, hnone⟩, fun a => ?_⟩
    · simp only [setPool]
      split_ifs
      · exact hnodup.2
      · exact h.nodup a
    · simp only [setPool] at hmem
      split_ifs at hmem with ha
      · rw [ha]
        exact h.pooled _ k (by rw [hpool]; exact mem_cons_of_mem _ hmem)
      · exact h.pooled a k hmem
    · simp only [setPool]
      split_ifs with ha
      · exact hnodup.1
      · intro hmem
        obtain ⟨c₀, hc₀, hpeer₀, -⟩ := h.pooled a fd hmem
        rw [hc] at hc₀
        cases hc₀
        exact ha (hpeer₀.symm.trans hpeer)
  · next hpool =>
    obtain ⟨fd', rfl, heq⟩ := map_eq_some_iff.1 hget
    cases heq
    rw [all_some, isNone_iff_eq_none] at hsocket
    refine ⟨tidy_newChannel h hsocket rfl, ⟨_, lookup_insert _, rfl⟩, fun a hmem => ?_⟩
    obtain ⟨c₀, hc₀, -⟩ := h.pooled a fd hmem
    rw [hsocket] at hc₀
    cases hc₀

theorem tidy_startTask {turn : TaskTurn} (h : Tidy w (t :: x)) (hc : w.channels.lookup fd = some c)
    (hnone : c.ctx.task = none) (hfd : ∀ a, fd ∉ w.pools a) (hstart : w.startTask P t fd turn = some w') :
    Tidy w' x := by
  unfold startTask at hstart
  rw [hc] at hstart
  dsimp only at hstart
  have hset : Tidy (w.setChannel fd (c.setTask t (w.request t).req.timeout)) x := tidy_attach h hc hnone hfd rfl
  split_ifs at hstart
  · cases hstart
    exact tidy_sendRequest hset (lookup_insert _) rfl rfl _ _
  · cases hstart
    exact tidy_setChannel_same hset (lookup_insert _) rfl rfl

theorem tidy_sendInLoop {turn : TaskTurn} (h : Tidy w (t :: x)) (hsocket : w.newSocket turn)
    (hsend : w.sendInLoop P t turn = some w') : Tidy w' x := by
  obtain ⟨⟨w₁, err⟩, hdo, rfl⟩ := map_eq_some_iff.1 hsend
  unfold doTask at hdo
  dsimp only at hdo ⊢
  split_ifs at hdo with hcancel htimeout
  · cases hdo
    exact tidy_call h
  · cases hdo
    exact tidy_call h
  · split at hdo
    · cases hdo
      exact tidy_call h
    · split at hdo
      · cases hdo
        exact tidy_call h
      · next w₂ fd hget =>
        obtain ⟨w₃, hstart, heq⟩ := map_eq_some_iff.1 hdo
        cases heq
        obtain ⟨h₂, ⟨c, hc, hnone⟩, hfd⟩ := tidy_getConn h hsocket hget
        exact tidy_startTask h₂ hc hnone hfd hstart

/-! ## `onread` -/

theorem tidy_answer (h : Tidy w x) (hc : w.channels.lookup fd = some c)
    (ht : c.ctx.task = some t) (hpeer : c'.peeraddr = c.peeraddr) (htask : c'.ctx.task = some t) :
    Tidy ((w.answer env c' p t).1.setChannel fd (w.answer env c' p t).2) x ∧
      (w.answer env c' p t).1.pools = w.pools ∧ (w.answer env c' p t).2.peeraddr = c.peeraddr ∧
      ((w.answer env c' p t).2.ctx.task = none ∨ ((w.request t).req.redirect ∧
        env.parser.isRedirect p.vendored ∧ env.parser.location p.vendored = [])) := by
  unfold answer
  split_ifs with hredirect hlocation
  · refine ⟨?_, rfl, hpeer, .inl rfl⟩
    have hdetach : Tidy (w.setChannel fd { c' with ctx := c'.ctx.cancelTask }) (t :: x) := tidy_detach h hc ht rfl
    exact tidy_enqueue (tidy_updateReq hdetach (w.tasks t) fun r =>
      { r with req := env.redirectTo r.req (env.parser.location p.vendored) })
  · simp only [Bool.and_eq_true] at hredirect
    refine ⟨?_, rfl, hpeer, .inr ⟨hredirect.1, hredirect.2, not_not.1 hlocation⟩⟩
    exact tidy_setChannel_same h hc (htask.trans ht.symm) hpeer
  · refine ⟨?_, rfl, hpeer, .inl rfl⟩
    have hdetach : Tidy (w.setChannel fd { c' with ctx := c'.ctx.successCallback }) (t :: x) := tidy_detach h hc ht rfl
    exact tidy_call hdetach

theorem tidy_oncomplete (h : Tidy w x) (hc : w.channels.lookup fd = some c)
    (ht : c.ctx.task = some t) (hpeer : c'.peeraddr = c.peeraddr) (htask : c'.ctx.task = some t) (later : Bool)
    (hlocation : (w.request t).req.redirect → env.parser.isRedirect p.vendored →
      (w.request t).req.keepAlive → env.parser.isKeepAlive p.vendored →
      env.parser.location p.vendored ≠ []) : Tidy (w.oncomplete env fd c' p t later) x := by
  obtain ⟨hanswer, hpools, hpeer', hidle⟩ := @tidy_answer σ env w fd t c c' x p h hc ht hpeer htask
  unfold oncomplete
  dsimp only
  split_ifs with hkeep
  · -- the connection goes to the pool, so its task is gone
    rw [Bool.and_eq_true] at hkeep
    have hnone := hidle.resolve_right fun hr => hlocation hr.1 hr.2.1 hkeep.1 hkeep.2 hr.2.2
    refine tidy_addPool hanswer (lookup_insert _) hnone ?_
    show fd ∉ (w.answer env c' p t).1.pools _
    rw [hpools]
    exact notMem_pool h hc ht _
  · exact tidy_close hanswer (lookup_insert _) later

theorem tidy_onread {data : ByteString} {later : Bool} (h : Tidy w x)
    (hc : w.channels.lookup fd = some c) (hp : c.ctx.parser = some p)
    (hok : w.locatesRedirects env (.read fd data later)) (hread : w.onread env fd c p data later = some w') :
    Tidy w' x := by
  unfold onread at hread
  split at hread
  · cases hread
    exact h
  · next t ht =>
    split_ifs at hread with hcancel hresp
    · cases hread
      exact tidy_close h hc later
    · dsimp only at hread
      split_ifs at hread with hparse hcomplete
      · cases hread
        refine tidy_close ?_ (lookup_insert _) later
        exact tidy_call (tidy_detach h hc ht rfl)
      · cases hread
        refine tidy_oncomplete h hc ht ?_ ?_ later ?_
        · rfl
        · exact ht
        intro hredirect hstatus hkeep hkeep'
        simp only [locatesRedirects, hc, ht, hp, all_some, hcomplete, hredirect, hstatus, hkeep, hkeep',
          Bool.and_self, Bool.not_true, Bool.false_or, decide_eq_true_eq] at hok
        exact hok
      · cases hread
        exact tidy_setChannel_same h hc rfl rfl

/-! ## Steps -/

inductive AsyncCase (env : ClientEnv σ) (w : AsyncWorld σ) : AsyncAct → AsyncWorld σ → Prop where
  | send : AsyncCase env w .send
      ({ w.updateReq (w.tasks w.ntasks) .clampRetries with ntasks := w.ntasks + 1 }.enqueue w.ntasks)
  | cancel (i : Nat) : AsyncCase env w (.cancel i) (w.updateReq i fun r => { r with cancel := true })
  | run {turn : TaskTurn} {t : Nat} {queue : List Nat} {w' : AsyncWorld σ} (hqueue : w.queue = t :: queue)
      (hsocket : w.newSocket turn)
      (hsend : sendInLoop env.parser { w with queue := queue } t turn = some w') : AsyncCase env w (.run turn) w'
  | retry {turn : TaskTurn} {t : Nat} {w' : AsyncWorld σ} (ht : t ∈ w.retries) (hsocket : w.newSocket turn)
      (hsend : sendInLoop env.parser { w with retries := w.retries.erase t } t turn = some w') :
      AsyncCase env w (.retry t turn) w'
  | connected {fd t : Nat} {c : SocketChannel σ} (peer : ByteString) (cancelled later : Bool)
      (hc : w.channels.lookup fd = some c) (ht : c.ctx.task = some t) :
      AsyncCase env w (.connected fd peer cancelled later)
        (w.sendRequest env.parser fd (c.onConnect peer) t cancelled later)
  | read {fd : Nat} {c : SocketChannel σ} {p : ClientParser σ} {data : ByteString} {later : Bool} {w' : AsyncWorld σ}
      (hc : w.channels.lookup fd = some c) (hp : c.ctx.parser = some p)
      (hread : w.onread env fd c p data later = some w') : AsyncCase env w (.read fd data later) w'
  | timeout {fd : Nat} {c : SocketChannel σ} (later : Bool) (hc : w.channels.lookup fd = some c) :
      AsyncCase env w (.timeout fd later)
        ((w.setChannel fd { c with ctx := c.ctx.cancelTimer }).close env.parser fd { c with ctx := c.ctx.cancelTimer } later)
  | closed {fd : Nat} {c : SocketChannel σ} (hc : w.channels.lookup fd = some c) :
      AsyncCase env w (.closed fd) (w.onclose env.parser fd c)

theorem asyncStep_cases {a : AsyncAct} (h : asyncStep env w a = some w') : AsyncCase env w a w' := by
  cases a with
  | send =>
    cases h
    exact .send
  | cancel i =>
    cases h
    exact .cancel i
  | run turn =>
    simp only [asyncStep] at h
    split at h
    · cases h
    · next t queue hqueue =>
      split_ifs at h with hsocket
      exact .run hqueue hsocket h
  | retry t turn =>
    simp only [asyncStep] at h
    split_ifs at h with hretry
    exact .retry hretry.1 hretry.2 h
  | connected fd peer cancelled later =>
    simp only [asyncStep] at h
    split at h
    · cases h
    · next c hc =>
      split at h
      · cases h
      · next t ht =>
        split_ifs at h
        cases h
        exact .connected peer cancelled later hc ht
  | read fd data later =>
    simp only [asyncStep] at h
    split at h
    · cases h
    · next c hc =>
      split at h
      · cases h
      · next p hp => exact .read hc hp h
  | timeout fd later =>
    simp only [asyncStep] at h
    split at h
    · cases h
    · next c hc =>
      split_ifs at h
      cases h
      exact .timeout later hc
  | closed fd =>
    simp only [asyncStep] at h
    split at h
    · cases h
    · next c hc =>
      cases h
      exact .closed hc

theorem tidy_step (h : Tidy w []) {a : AsyncAct} (hok : w.locatesRedirects env a)
    (hs : asyncStep env w a = some w') : Tidy w' [] := by
  cases asyncStep_cases hs with
  | send =>
    refine ⟨fun u => ?_, h.nodup, h.pooled⟩
    have hu := h.once u
    have hplaces : places ({ w.updateReq (w.tasks w.ntasks) .clampRetries with ntasks := w.ntasks + 1 }.enqueue w.ntasks) u =
        places w u + if w.ntasks = u then 1 else 0 := by
      simp only [places, attached, enqueue, updateReq, count_append, count_cons,
        count_nil, beq_iff_eq]
      omega
    rw [hplaces]
    show _ = if u < w.ntasks + 1 then 1 else 0
    rcases Nat.lt_trichotomy u w.ntasks with hlt | rfl | hgt
    · rw [if_pos hlt] at hu
      rw [if_neg (Nat.ne_of_gt hlt), if_pos (Nat.lt_succ_of_lt hlt)]
      exact hu
    · rw [if_neg (Nat.lt_irrefl _)] at hu
      rw [if_pos rfl, if_pos (Nat.lt_succ_self _)]
      omega
    · rw [if_neg (Nat.not_lt_of_gt hgt)] at hu
      rw [if_neg (Nat.ne_of_lt hgt), if_neg (Nat.not_lt_of_ge hgt)]
      exact hu
  | cancel i => exact tidy_updateReq h _ _
  | @run turn t queue w' hqueue hsocket hsend =>
    refine tidy_sendInLoop ?_ ?_ hsend
    · refine tidy_move h rfl rfl rfl fun u => ?_
      simp only [places, attached, hqueue, count_cons, count_nil]
      omega
    · exact hsocket
  | @retry turn t w' ht hsocket hsend =>
    refine tidy_sendInLoop ?_ ?_ hsend
    · refine tidy_move h rfl rfl rfl fun u => ?_
      have hcount := (perm_cons_erase ht).count_eq u
      simp only [places, attached, count_cons, count_nil] at hcount ⊢
      omega
    · exact hsocket
  | connected peer cancelled later hc ht =>
    refine tidy_sendRequest h hc ht ?_ cancelled later
    exact ht
  | read hc hp hread => exact tidy_onread h hc hp hok hread
  | timeout later hc =>
    refine tidy_close ?_ (lookup_insert _) later
    exact tidy_setChannel_same h hc rfl rfl
  | closed hc => exact tidy_onclose h hc

theorem callsOnce_of_tidy (h : Tidy w []) : w.callsOnce := by
  refine ⟨?_, fun u hu => ?_, fun addr fd hmem c hc => ?_⟩
  · rw [nodup_iff_count_le_one]
    intro u
    have hu := h.once u
    simp only [places, count_nil] at hu
    split_ifs at hu <;> omega
  · have honce := h.once u
    rw [if_pos hu, count_nil] at honce
    simp only [places] at honce
    by_contra hplace
    simp only [hasPlace, not_or] at hplace
    obtain ⟨hqueue, hretries, hattached, hcalled⟩ := hplace
    have hheld : u ∉ attached w := fun hmem => hattached (mem_held.1 hmem)
    rw [count_eq_zero.2 hqueue, count_eq_zero.2 hretries, count_eq_zero.2 hheld,
      count_eq_zero.2 hcalled] at honce
    omega
  · obtain ⟨c₀, hc₀, -, hnone⟩ := h.pooled addr fd hmem
    rw [hc] at hc₀
    cases hc₀
    exact hnone

/-- As long as no redirect status without a `Location` keeps its connection, every task is called back at
    most once, none is dropped, and the pooled connections have no task. -/
theorem async_client_calls_once (env : ClientEnv σ) (reqs : Nat → ClientRequest) (tasks : Nat → Nat) {w : AsyncWorld σ}
    (h : Reachable (asyncStep env) (fun w a => w.locatesRedirects env a = true) (· = newAsyncWorld reqs tasks) w) :
    w.callsOnce := by
  have hinv : Tidy w [] := by
    apply h.invariant
    · rintro w rfl
      exact ⟨fun u => rfl, fun _ => nodup_nil, fun addr fd hmem => (by cases hmem)⟩
    · exact fun _ _ _ hw hok hs => tidy_step hw hok hs
  exact callsOnce_of_tidy hinv

def serverAddr : ByteString := ascii "10.0.0.1:8080"

def taskTurn (fd : Nat) : TaskTurn := ⟨0, some serverAddr, some fd, false, false⟩

def twoTasks (response : ByteString) : List AsyncAct :=
  [.send, .run (taskTurn 3), .connected 3 serverAddr false false, .read 3 response false,
    .send, .run (taskTurn 4), .read 3 response false]

theorem async_client_calls_once_two_tasks :
    ∃ w, runFrom (guarded (asyncStep emptyEnv) (fun w a => w.locatesRedirects emptyEnv a = true))
        (newAsyncWorld (fun _ => plainRequest false) id) (twoTasks emptyResponse) = some w ∧
      w.called = [0, 1] ∧ w.channels.keys = [3] ∧ w.callsOnce := by
  refine exists_run (by decide +kernel) fun w hrun => ⟨?_, ?_, async_client_calls_once emptyEnv _ _
    (Reachable.runGuarded (twoTasks emptyResponse) (.start rfl) hrun)⟩
  all_goals exact of_run hrun (by decide +kernel)

def foundResponse : ByteString := ascii "HTTP/1.1 302 Found\r\nContent-Length: 0\r\n\r\n"

def foundEnv : ClientEnv ByteString :=
  ⟨{ oneResponse foundResponse with isRedirect := fun _ => true }, fun req _ => req⟩

def redirectRequest : ClientRequest := { plainRequest false with redirect := true }

/-- The first task gets a redirect status without a `Location`; the second gets the connection. -/
def lostTask : List AsyncAct :=
  [.send, .run (taskTurn 3), .connected 3 serverAddr false false, .read 3 foundResponse false, .send, .run (taskTurn 4)]

/-- The first task is on no channel, in no queue and not done. -/
theorem redirect_without_location_loses_task :
    ∃ w, Reachable (asyncStep foundEnv) Always (· = newAsyncWorld (fun _ => redirectRequest) id) w ∧
      w.ntasks = 2 ∧ ¬ w.hasPlace 0 ∧ ¬ w.callsOnce := by
  refine exists_reached lostTask rfl (by decide +kernel) fun w _ hrun => ?_
  obtain ⟨hntasks, hqueue, hretries, hattached, hcalled⟩ :
      w.ntasks = 2 ∧ w.queue = [] ∧ w.retries = [] ∧ attached w = [1] ∧ w.called = [] := of_run hrun (by decide +kernel)
  have hlost : ¬ w.hasPlace 0 := by
    rintro (h | h | h | h)
    · rw [hqueue] at h
      cases h
    · rw [hretries] at h
      cases h
    · have hmem : 0 ∈ attached w := mem_held.2 h
      rw [hattached] at hmem
      simp at hmem
    · rw [hcalled] at h
      cases h
  refine ⟨hntasks, hlost, fun honce => ?_⟩
  exact hlost (honce.2.1 0 (by rw [hntasks]; decide))

end HvVerified.Http.Proofs
