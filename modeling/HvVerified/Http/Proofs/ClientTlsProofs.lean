import HvVerified.Http.Proofs.AsyncClientProofs

/-!
# TLS of the clients

If a connection is only used again for requests of its own scheme, it has TLS whenever a request with the
scheme `https` is written to it. For the asynchronous client this is a fact about the tasks on its channels.
-/

namespace HvVerified.Http.Proofs

open Base Lib List AsyncWorld AList

variable {σ : Type} {env : ClientEnv σ} {turn : TaskTurn}

/-! ## The synchronous client -/

section Sync

variable {e : Exec σ} {w w' : ClientWorld σ}

def Matches (w : ClientWorld σ) (cli : HttpClient σ) : Prop :=
  ∀ n, cli.fd = some n → n < w.nconns ∧ (w.conns n).tls = cli.ssl

/-- The requests that are being sent with the scheme `https` have a connection with TLS. -/
structure SecureWorld (w : ClientWorld σ) : Prop where
  writes : w.neverClear
  cli : Matches w w.cli
  exec : ∀ e, w.exec = some e → Matches w e.cli
  secure : ∀ e, w.exec = some e → e.pc = .send ∨ e.pc = .recv → e.req.https → e.cli.ssl

def TurnSecure (w : ClientWorld σ) : Turn σ → Prop
  | .next e => Matches w e.cli ∧ (e.pc = .send ∨ e.pc = .recv → e.req.https → e.cli.ssl)
  | .return_ e _ => Matches w e.cli

theorem matches_spoil {code : Int} {cli : HttpClient σ} (h : Matches w cli) : Matches (w.spoil e code) cli := by
  obtain ⟨-, hnconns, -, -, htls⟩ := spoil_fields w e code
  intro n hn
  rw [hnconns, htls]
  exact h n hn

theorem secureWorld_afterTurn {turn : Turn σ} (hwrites : w.neverClear) (hcli : Matches w w.cli)
    (hturn : TurnSecure w turn) : SecureWorld (w.afterTurn env turn) := by
  cases turn with
  | next e =>
    refine ⟨hwrites, hcli, fun e' he => ?_, fun e' he => ?_⟩
    · cases he
      exact hturn.1
    · cases he
      exact hturn.2
  | return_ e code =>
    obtain ⟨hcli', -, hwrites', -, -⟩ := spoil_fields w e code
    have hkept : Matches (w.spoil e code) (if e.temporary then (w.spoil e code).cli else e.cli) := by
      split_ifs
      · rw [hcli']
        exact matches_spoil hcli
      · exact matches_spoil hturn
    refine ⟨?_, hkept, fun e' he n hn => ?_, fun e' he hpc => ?_⟩
    · simp only [ClientWorld.afterTurn, ClientWorld.returned, hwrites']
      exact hwrites
    · obtain ⟨req, rfl⟩ := returned_exec he
      cases hn
    · obtain ⟨req, rfl⟩ := returned_exec he
      rcases hpc with hpc | hpc
      · cases hpc
      · cases hpc

theorem turnSecure_of_keeps {turn : Turn σ} (hkeeps : KeepsConn e turn) (hmatches : Matches w e.cli)
    (hsecure : e.req.https → e.cli.ssl) : TurnSecure w turn := by
  cases turn with
  | next e' =>
    obtain ⟨hreq, -, -, hfd, hssl⟩ := hkeeps
    refine ⟨fun n hn => ?_, fun _ hhttps => ?_⟩
    · rw [hssl]
      exact hmatches n (hfd ▸ hn)
    · rw [hssl]
      exact hsecure (hreq ▸ hhttps)
  | return_ e' code =>
    obtain ⟨-, -, hfd⟩ := hkeeps
    intro n hn
    rcases hfd with hnone | ⟨hfd, hssl⟩
    · rw [hnone] at hn
      cases hn
    · rw [hssl]
      exact hmatches n (hfd ▸ hn)

theorem matches_mono {cli : HttpClient σ} (h : Matches w cli) (hnconns : w.nconns ≤ w'.nconns)
    (htls : ∀ n, n < w.nconns → (w'.conns n).tls = (w.conns n).tls) : Matches w' cli := by
  intro n hn
  obtain ⟨hlt, heq⟩ := h n hn
  exact ⟨Nat.lt_of_lt_of_le hlt hnconns, by rw [htls n hlt, heq]⟩

theorem tls_updateConn {conn : Nat} {change : Conn → Conn} (h : ∀ c, (change c).tls = c.tls) (n : Nat) :
    ((w.updateConn conn change).conns n).tls = (w.conns n).tls := by
  simp only [ClientWorld.updateConn]
  split_ifs
  · exact h _
  · rfl

theorem secureWorld_connected (hw : SecureWorld w) {now : Int} : SecureWorld (ClientWorld.afterTurn env
      { w.updateConn w.nconns (fun _ => ⟨e.req.https, [], false⟩) with nconns := w.nconns + 1 }
      (e.connectTurn env.parser w.nconns none now)) := by
  refine secureWorld_afterTurn ?_ ?_ ?_
  · exact hw.writes
  · refine matches_mono hw.cli (Nat.le_succ _) fun n hn => ?_
    simp only [ClientWorld.updateConn, if_neg (Nat.ne_of_lt hn)]
  · have hmakes := makesConn_connectTurn (P := env.parser) e w.nconns now
    generalize e.connectTurn env.parser w.nconns none now = turn at hmakes ⊢
    cases turn with
    | next e' =>
      obtain ⟨hreq, -, -, hfd, hssl⟩ := hmakes
      refine ⟨fun n hn => ?_, fun _ hhttps => ?_⟩
      · rw [hfd] at hn
        cases hn
        simp [ClientWorld.updateConn, hssl]
      · rw [hssl, ← hreq]
        exact hhttps
    | return_ e' code =>
      intro n hn
      rw [hmakes.2.2] at hn
      cases hn

theorem secureWorld_send (hw : SecureWorld w) {io : IoTurn} {conn : Nat} (hexec : w.exec = some e)
    (hfd : e.cli.fd = some conn) (hpc : e.pc = .send) :
    SecureWorld ((if e.callsSystem io && io.result.isSome then w.wrote e conn else w).afterTurn env
      (e.sendTurn env.parser io)) := by
  have hsecure := hw.secure e hexec (.inl hpc)
  have hmatches := hw.exec e hexec
  have hturn : TurnSecure w (e.sendTurn env.parser io) := turnSecure_of_keeps (keepsConn_sendTurn io) hmatches hsecure
  split_ifs
  · have hwrites : (w.wrote e conn).neverClear := by
      intro r hr hhttps
      rcases mem_append.1 hr with hr | hr
      · exact hw.writes r hr hhttps
      · rw [mem_singleton.1 hr] at hhttps ⊢
        exact (hmatches conn hfd).2.trans (hsecure hhttps)
    have hturn' : TurnSecure (w.wrote e conn) (e.sendTurn env.parser io) := hturn
    exact secureWorld_afterTurn hwrites hw.cli hturn'
  · exact secureWorld_afterTurn hw.writes hw.cli hturn

theorem secureWorld_start (hw : SecureWorld w) {now : Int} (hexec : w.exec = some e)
    (hok : w.reusesScheme (.start now)) : SecureWorld { w with exec := some (e.startTurn env.parser now) } := by
  obtain ⟨hreq, -, hfd, hssl, hreuses⟩ := startTurn_cases (P := env.parser) e now
  simp only [ClientWorld.reusesScheme, hexec, Option.all_some, Bool.or_eq_true, Bool.not_eq_true'] at hok
  refine ⟨hw.writes, hw.cli, fun e' he n hn => ?_, fun e' he hpc hhttps => ?_⟩
  · cases he
    rw [hssl]
    exact hw.exec e hexec n (hfd ▸ hn)
  · cases he
    rcases hreuses with ⟨hreuses, -⟩ | ⟨hconnect, -⟩
    · rw [hreq] at hhttps
      rw [hssl]
      rw [hreuses, hhttps] at hok
      simpa using hok
    · rw [hconnect] at hpc
      rcases hpc with hpc | hpc
      · cases hpc
      · cases hpc

theorem secureWorld_step (hw : SecureWorld w) {a : ClientAct} (hok : w.reusesScheme a)
    (hs : clientStep env w a = some w') : SecureWorld w' := by
  cases clientStep_cases hs with
  | call req hexec =>
    refine ⟨hw.writes, hw.cli, fun e he => ?_, fun e he hpc => ?_⟩
    · cases he
      exact hw.cli
    · cases he
      rcases hpc with hpc | hpc
      · cases hpc
      · cases hpc
  | start now hexec hpc => exact secureWorld_start hw hexec hok
  | connected now hexec hpc => exact secureWorld_connected hw
  | connectFailed code now hexec hpc hcode =>
    exact secureWorld_afterTurn hw.writes hw.cli fun n hn => (by cases hn)
  | send io hexec hfd hpc => exact secureWorld_send hw hexec hfd hpc
  | @recv io n e conn hexec hfd hpc hresult hn =>
    have hsecure := hw.secure e hexec (.inr hpc)
    split_ifs
    · have htls : ∀ k, ((w.received conn n io.cancelled).conns k).tls = (w.conns k).tls :=
        @tls_updateConn σ w conn (fun c => { c with inbox := c.inbox.drop n }) (fun _ => rfl)
      refine secureWorld_afterTurn ?_ ?_ ?_
      · exact hw.writes
      · exact matches_mono hw.cli le_rfl fun k _ => htls k
      · refine turnSecure_of_keeps (keepsConn_recvTurn io _) ?_ hsecure
        exact matches_mono (hw.exec e hexec) le_rfl fun k _ => htls k
    · exact secureWorld_afterTurn hw.writes hw.cli
        (turnSecure_of_keeps (keepsConn_recvTurn io _) (hw.exec e hexec) hsecure)
  | @recvFailed io e conn hexec hfd hpc hresult =>
    exact secureWorld_afterTurn hw.writes hw.cli
      (turnSecure_of_keeps (keepsConn_recvTurn io _) (hw.exec e hexec) (hw.secure e hexec (.inr hpc)))
  | server conn bytes hconn =>
    have htls := @tls_updateConn σ w conn
      (fun c => { c with inbox := c.inbox ++ bytes.map fun b => (w.calls, b) }) (fun _ => rfl)
    exact ⟨hw.writes, matches_mono hw.cli le_rfl fun k _ => htls k,
      fun e he => matches_mono (hw.exec e he) le_rfl fun k _ => htls k, hw.secure⟩

theorem secureWorld_of_reachable {host : ByteString} {port : Nat}
    (h : Reachable (clientStep env) (fun w a => w.reusesScheme a) (· = newClientWorld env host port) w) :
    SecureWorld w := by
  apply h.invariant
  · rintro w rfl
    exact ⟨fun r hr => (by cases hr), fun n hn => (by cases hn), fun e he => (by cases he), fun e he => (by cases he)⟩
  · exact fun _ _ _ hw hok hs => secureWorld_step hw hok hs

end Sync

/-! ## The asynchronous client -/

section Async

variable {P : ResponseParser σ} {w w' : AsyncWorld σ} {fd t : Nat} {c c' : SocketChannel σ}

/-- The channel has TLS if its task has the scheme `https`. -/
def ServesScheme (w : AsyncWorld σ) (c : SocketChannel σ) : Prop :=
  ∀ t, c.ctx.task = some t → (w.request t).req.https → c.ssl

/-- The tasks with the scheme `https` are on channels with TLS. -/
structure SecureClient (w : AsyncWorld σ) : Prop where
  writes : w.neverClear
  channels : ∀ fd c, w.channels.lookup fd = some c → ServesScheme w c

theorem secure_of_eq (h : SecureClient w) (hreqs : w'.reqs = w.reqs) (htasks : w'.tasks = w.tasks)
    (hchannels : w'.channels = w.channels) (hwrites : w'.writes = w.writes) : SecureClient w' := by
  refine ⟨?_, fun fd c hc t ht hhttps => ?_⟩
  · unfold neverClear
    rw [hwrites]
    exact h.writes
  · rw [hchannels] at hc
    rw [request, hreqs, htasks] at hhttps
    exact h.channels fd c hc t ht hhttps

theorem secure_updateReq (h : SecureClient w) (i : Nat) {change : AsyncRequest → AsyncRequest}
    (hchange : ∀ r, (change r).req.https = r.req.https) : SecureClient (w.updateReq i change) := by
  refine ⟨h.writes, fun fd c hc t ht hhttps => h.channels fd c hc t ht ?_⟩
  simp only [request, updateReq] at hhttps ⊢
  split_ifs at hhttps
  · rw [hchange] at hhttps
    exact hhttps
  · exact hhttps

theorem secure_setChannel (h : SecureClient w) (hserves : ServesScheme w c) : SecureClient (w.setChannel fd c) := by
  refine ⟨h.writes, fun fd' c' hc' => ?_⟩
  by_cases heq : fd' = fd
  · subst heq
    rw [show (w.setChannel fd' c).channels.lookup fd' = some c from lookup_insert _] at hc'
    cases hc'
    exact hserves
  · exact h.channels fd' c' ((lookup_insert_ne heq).symm.trans hc')

theorem secure_closedTask (h : SecureClient w) (ctx : HttpClientContext σ) : SecureClient (w.closedTask P ctx t) := by
  have hretry : SecureClient (w.updateReq (w.tasks t) .takeRetry) := by
    refine secure_updateReq h _ fun r => ?_
    rfl
  unfold closedTask
  dsimp only
  split_ifs
  · exact secure_of_eq h rfl rfl rfl rfl
  · exact secure_of_eq hretry rfl rfl rfl rfl
  · exact secure_of_eq hretry rfl rfl rfl rfl
  · exact secure_of_eq hretry rfl rfl rfl rfl

theorem secure_removeChannel (h : SecureClient w) : SecureClient { w with channels := w.channels.erase fd } := by
  refine ⟨h.writes, fun fd' c' hc' => ?_⟩
  by_cases heq : fd' = fd
  · subst heq
    rw [show lookup fd' (w.channels.erase fd') = none from lookup_erase _ _] at hc'
    cases hc'
  · exact h.channels fd' c' ((lookup_erase_ne heq).symm.trans hc')

theorem secure_onclose (h : SecureClient w) : SecureClient (w.onclose P fd c) := by
  have hpool : SecureClient (w.setPool c.peeraddr ((w.pools c.peeraddr).erase fd)) := secure_of_eq h rfl rfl rfl rfl
  apply secure_removeChannel
  split
  · exact secure_closedTask hpool c.ctx
  · exact hpool

theorem secure_close (h : SecureClient w) (hserves : ServesScheme w c) (later : Bool) :
    SecureClient (w.close P fd c later) := by
  unfold close
  split_ifs
  · exact h
  · exact secure_setChannel h hserves
  · exact secure_onclose h

theorem secure_sendRequest (h : SecureClient w) (ht : c.ctx.task = some t) (hserves : ServesScheme w c)
    (cancelled later : Bool) : SecureClient (w.sendRequest P fd c t cancelled later) := by
  unfold sendRequest
  dsimp only
  generalize hw₁ : (if cancelled then w.updateReq (w.tasks t) fun r => { r with cancel := true } else w) = w₁
  have h₁ : SecureClient w₁ ∧ ∀ u, (w₁.request u).req.https = (w.request u).req.https := by
    rw [← hw₁]
    split_ifs
    · refine ⟨secure_updateReq h _ fun _ => rfl, fun u => ?_⟩
      simp only [request, updateReq]
      split_ifs <;> rfl
    · exact ⟨h, fun _ => rfl⟩
  have hserves₁ : ServesScheme w₁ { c with ctx := c.ctx.submit P (w₁.request t).req.isHead } := by
    intro u hu hhttps
    rw [h₁.2] at hhttps
    exact hserves u hu hhttps
  have hset : SecureClient (w₁.setChannel fd _) := secure_setChannel h₁.1 hserves₁
  split_ifs
  · exact hset
  · exact secure_close hset hserves₁ later
  · refine ⟨fun r hr hhttps => ?_, hset.channels⟩
    rcases mem_append.1 hr with hr | hr
    · exact hset.writes r hr hhttps
    · rw [mem_singleton.1 hr] at hhttps ⊢
      exact hserves₁ t ht hhttps

theorem secure_startTask (h : SecureClient w)
    (hfd : ∀ c, w.channels.lookup fd = some c → (w.request t).req.https → c.ssl)
    (hstart : w.startTask P t fd turn = some w') : SecureClient w' := by
  unfold startTask at hstart
  split at hstart
  · cases hstart
  · next c hc =>
    dsimp only at hstart
    have hserves : ServesScheme w (c.setTask t (w.request t).req.timeout) := by
      intro u hu hhttps
      cases hu
      exact hfd c hc hhttps
    have hset : SecureClient (w.setChannel fd _) := secure_setChannel h hserves
    split_ifs at hstart
    · cases hstart
      refine secure_sendRequest hset ?_ ?_ _ _
      · rfl
      · exact hserves
    · cases hstart
      refine secure_setChannel hset ?_
      exact hserves

theorem secure_getConn {addr : ByteString} (h : SecureClient w) (haddr : turn.addr = some addr)
    (hok : w.poolSecure t turn) (hget : w.getConn (w.request t).req addr turn.socket = some (w', fd)) :
    SecureClient w' ∧ ∀ c, w'.channels.lookup fd = some c → (w'.request t).req.https → c.ssl := by
  unfold getConn at hget
  split at hget
  · next fd' rest hpool =>
    cases hget
    refine ⟨secure_of_eq h rfl rfl rfl rfl, fun c hc hhttps => ?_⟩
    have hhttps' : (w.request t).req.https := hhttps
    have hc' : w.channels.lookup fd = some c := hc
    simpa only [poolSecure, hhttps', haddr, hpool, head?_cons, hc', Option.all_some, Bool.not_true,
      Bool.false_or] using hok
  · next hpool =>
    obtain ⟨fd', -, heq⟩ := Option.map_eq_some_iff.1 hget
    cases heq
    refine ⟨secure_setChannel h fun u hu => (by cases hu), fun c hc hhttps => ?_⟩
    rw [show (w.setChannel fd (newChannel addr (w.request t).req.https)).channels.lookup fd = _ from
      lookup_insert _] at hc
    cases hc
    exact hhttps

theorem secure_sendInLoop (h : SecureClient w) (hok : w.poolSecure t turn)
    (hsend : w.sendInLoop P t turn = some w') : SecureClient w' := by
  have hcall : SecureClient (w.call t) := secure_of_eq h rfl rfl rfl rfl
  obtain ⟨⟨w₁, err⟩, hdo, rfl⟩ := Option.map_eq_some_iff.1 hsend
  unfold doTask at hdo
  dsimp only at hdo ⊢
  split_ifs at hdo with hcancel htimeout
  · cases hdo
    exact hcall
  · cases hdo
    exact hcall
  · split at hdo
    · cases hdo
      exact hcall
    · next addr haddr =>
      split at hdo
      · cases hdo
        exact hcall
      · next w₂ fd hget =>
        obtain ⟨w₃, hstart, heq⟩ := Option.map_eq_some_iff.1 hdo
        cases heq
        obtain ⟨h₂, hfd⟩ := secure_getConn h haddr hok hget
        exact secure_startTask h₂ hfd hstart

theorem secure_redirect {location : ByteString} (h : SecureClient w) (hnone : c.ctx.task = none)
    (hothers : (env.redirectTo (w.request t).req location).https →
      ∀ fd' c' t', w.channels.lookup fd' = some c' → fd' ≠ fd → c'.ctx.task = some t' → w.tasks t' = w.tasks t →
        c'.ssl) : SecureClient ((w.redirect env t location).setChannel fd c) := by
  refine ⟨h.writes, fun fd' c' hc' t' ht' hhttps => ?_⟩
  by_cases heq : fd' = fd
  · subst heq
    rw [show ((w.redirect env t location).setChannel fd' c).channels.lookup fd' = some c from lookup_insert _] at hc'
    cases hc'
    rw [hnone] at ht'
    cases ht'
  · have hc : w.channels.lookup fd' = some c' := (lookup_insert_ne heq).symm.trans hc'
    simp only [request, setChannel, redirect, enqueue, updateReq]
      at hhttps
    by_cases htasks : w.tasks t' = w.tasks t
    · rw [if_pos htasks, htasks] at hhttps
      exact hothers hhttps fd' c' t' hc heq ht' htasks
    · rw [if_neg htasks] at hhttps
      exact h.channels fd' c' hc t' ht' hhttps

theorem secure_answer {p : ClientParser σ} (h : SecureClient w) (hserves : ServesScheme w c)
    (hothers : (w.request t).req.redirect → env.parser.isRedirect p.vendored →
      env.parser.location p.vendored ≠ [] →
      (env.redirectTo (w.request t).req (env.parser.location p.vendored)).https →
      ∀ fd' c' t', w.channels.lookup fd' = some c' → fd' ≠ fd → c'.ctx.task = some t' → w.tasks t' = w.tasks t →
        c'.ssl) : SecureClient ((w.answer env c p t).1.setChannel fd (w.answer env c p t).2) ∧
      ServesScheme ((w.answer env c p t).1.setChannel fd (w.answer env c p t).2) (w.answer env c p t).2 := by
  unfold answer
  split_ifs with hredirect hlocation
  · rw [Bool.and_eq_true] at hredirect
    refine ⟨secure_redirect h rfl (hothers hredirect.1 hredirect.2 hlocation), fun u hu => ?_⟩
    cases hu
  · exact ⟨secure_setChannel h hserves, hserves⟩
  · refine ⟨secure_setChannel (secure_of_eq h rfl rfl rfl rfl) ?_, ?_⟩
    · exact fun u hu => (by cases hu)
    · exact fun u hu => (by cases hu)

theorem others_of_takesSecure {p : ClientParser σ} {data : ByteString} {later : Bool}
    (hc : w.channels.lookup fd = some c) (ht : c.ctx.task = some t) (hp : c.ctx.parser = some p)
    (hok : w.takesSecure env (.read fd data later)) (hcomplete : (p.feed env.parser data).isComplete)
    (hredirect : (w.request t).req.redirect) (hstatus : env.parser.isRedirect (p.feed env.parser data).vendored)
    (hlocation : env.parser.location (p.feed env.parser data).vendored ≠ [])
    (hhttps : (env.redirectTo (w.request t).req (env.parser.location (p.feed env.parser data).vendored)).https)
    {fd' t' : Nat} {c' : SocketChannel σ} (hc' : w.channels.lookup fd' = some c') (hne : fd' ≠ fd)
    (ht' : c'.ctx.task = some t') (htasks : w.tasks t' = w.tasks t) : c'.ssl := by
  simp only [takesSecure, hc, ht, hp, Option.all_some, hcomplete, hredirect, hstatus, hhttps, hlocation,
    Bool.and_self, Bool.not_true, Bool.false_or, decide_false, all_eq_true] at hok
  have hmem := hok ⟨fd', c'⟩ (mem_lookup_iff.1 hc')
  simpa [hne, ht', htasks] using hmem

theorem secure_onread {p : ClientParser σ} {data : ByteString} {later : Bool} (h : SecureClient w)
    (hc : w.channels.lookup fd = some c) (hp : c.ctx.parser = some p)
    (hok : w.takesSecure env (.read fd data later)) (hread : w.onread env fd c p data later = some w') :
    SecureClient w' := by
  have hserves := h.channels fd c hc
  unfold onread at hread
  split at hread
  · cases hread
    exact h
  · next t ht =>
    split_ifs at hread with hcancel hresp
    · cases hread
      exact secure_close h hserves later
    · dsimp only at hread
      split_ifs at hread with hparse hcomplete
      · cases hread
        have hcall : SecureClient (w.call t) := secure_of_eq h rfl rfl rfl rfl
        refine secure_close (secure_setChannel hcall ?_) ?_ later
        · exact fun u hu => (by cases hu)
        · exact fun u hu => (by cases hu)
      · cases hread
        unfold oncomplete
        dsimp only
        obtain ⟨hanswer, hserves'⟩ := @secure_answer σ env w fd t
          { c with ctx := { c.ctx with parser := some (p.feed env.parser data) } } (p.feed env.parser data) h hserves
          fun hredirect hstatus hlocation hhttps fd' c' t' hc' hne ht' htasks =>
            others_of_takesSecure hc ht hp hok hcomplete hredirect hstatus hlocation hhttps hc' hne ht' htasks
        split_ifs
        · exact secure_of_eq hanswer rfl rfl rfl rfl
        · exact secure_close hanswer hserves' later
      · cases hread
        exact secure_setChannel h hserves

theorem secure_step (h : SecureClient w) {a : AsyncAct} (hok : w.takesSecure env a)
    (hs : asyncStep env w a = some w') : SecureClient w' := by
  cases asyncStep_cases hs with
  | send =>
    have hclamp : ∀ r : AsyncRequest, r.clampRetries.req.https = r.req.https := by
      intro r
      unfold AsyncRequest.clampRetries
      split_ifs <;> rfl
    exact secure_of_eq (secure_updateReq h (w.tasks w.ntasks) hclamp) rfl rfl rfl rfl
  | cancel i => exact secure_updateReq h i fun _ => rfl
  | @run turn t queue w' hqueue hsocket hsend =>
    refine secure_sendInLoop ?_ ?_ hsend
    · exact secure_of_eq h rfl rfl rfl rfl
    · simp only [takesSecure, hqueue, head?_cons, Option.all_some] at hok
      exact hok
  | @retry turn t w' ht hsocket hsend =>
    refine secure_sendInLoop ?_ ?_ hsend
    · exact secure_of_eq h rfl rfl rfl rfl
    · exact hok
  | @connected fd t c peer cancelled later hc ht =>
    refine secure_sendRequest h ?_ ?_ cancelled later
    · exact ht
    · exact h.channels fd c hc
  | read hc hp hread => exact secure_onread h hc hp hok hread
  | @timeout fd c later hc =>
    have hserves : ServesScheme w { c with ctx := c.ctx.cancelTimer } := h.channels fd c hc
    exact secure_close (secure_setChannel h hserves) hserves later
  | closed hc => exact secure_onclose h

theorem secureClient_of_reachable {reqs : Nat → ClientRequest} {tasks : Nat → Nat}
    (h : Reachable (asyncStep env) (fun w a => w.takesSecure env a) (· = newAsyncWorld reqs tasks) w) :
    SecureClient w := by
  apply h.invariant
  · rintro w rfl
    exact ⟨fun r hr => (by cases hr), fun fd c hc => (by cases hc)⟩
  · exact fun _ _ _ hw hok hs => secure_step hw hok hs

end Async

/-! ## Both clients -/

/-- If connections without TLS are not used again for requests with the scheme `https`, no such request is
    written in clear text, neither by the synchronous nor by the asynchronous client. -/
theorem https_never_in_clear (env : ClientEnv σ) :
    (∀ (host : ByteString) (port : Nat) (w : ClientWorld σ),
      Reachable (clientStep env) (fun w a => w.reusesScheme a = true) (· = newClientWorld env host port) w →
      w.neverClear) ∧
    ∀ (reqs : Nat → ClientRequest) (tasks : Nat → Nat) (w : AsyncWorld σ),
      Reachable (asyncStep env) (fun w a => w.takesSecure env a = true) (· = newAsyncWorld reqs tasks) w →
      w.neverClear := by
  constructor
  · intro host port w h
    exact (secureWorld_of_reachable h).writes
  · intro reqs tasks w h
    exact (secureClient_of_reachable h).writes

def secureExchanges : List ClientAct :=
  [.call (plainRequest true), .start 0, .connect none 0, .send (ioDone 18), .server 0 emptyResponse, .recv (ioDone 38),
    .call (plainRequest true), .start 0, .send (ioDone 18)]

theorem https_never_in_clear_twice :
    (∃ w, runFrom (guarded (clientStep emptyEnv) (fun w a => w.reusesScheme a = true))
        (newClientWorld emptyEnv (ascii "server") 8080) secureExchanges = some w ∧
      w.writes = [⟨true, true, false⟩, ⟨true, true, false⟩] ∧ w.neverClear) ∧
    ∃ w, runFrom (guarded (asyncStep emptyEnv) (fun w a => w.takesSecure emptyEnv a = true))
        (newAsyncWorld (fun _ => plainRequest true) id) (twoTasks emptyResponse) = some w ∧
      w.writes = [⟨true, true⟩, ⟨true, true⟩] ∧ w.neverClear := by
  constructor
  · exact exists_run (by decide +kernel) fun w hrun => ⟨of_run hrun (by decide +kernel),
      (https_never_in_clear emptyEnv).1 (ascii "server") 8080 w
      (Reachable.runGuarded secureExchanges (.start rfl) hrun)⟩
  · exact exists_run (by decide +kernel) fun w hrun => ⟨of_run hrun (by decide +kernel),
      (https_never_in_clear emptyEnv).2 (fun _ => plainRequest true) id
      w (Reachable.runGuarded (twoTasks emptyResponse) (.start rfl) hrun)⟩

def mixedSchemes : List ClientAct :=
  firstExchange ++ [.call (plainRequest true), .start 0, .send (ioDone 18)]

/-- Both clients write the second request to the connection of the first, which has no TLS. -/
theorem reused_connection_is_clear :
    (∃ w, Reachable (clientStep emptyEnv) Always (· = newClientWorld emptyEnv (ascii "server") 8080) w ∧
      w.writes = [⟨false, false, false⟩, ⟨true, false, false⟩] ∧ ¬ w.neverClear) ∧
    ∃ w, Reachable (asyncStep emptyEnv) Always (· = newAsyncWorld (fun i => plainRequest (i = 1)) id) w ∧
      w.writes = [⟨false, false⟩, ⟨true, false⟩] ∧ ¬ w.neverClear := by
  constructor
  · refine exists_reached mixedSchemes rfl (by decide +kernel) fun w _ hrun =>
      ⟨of_run hrun (by decide +kernel), fun hclear => ?_⟩
    have hlast := hclear ⟨true, false, false⟩ (of_run hrun (by decide +kernel)) rfl
    cases hlast
  · refine exists_reached (twoTasks emptyResponse) rfl (by decide +kernel) fun w _ hrun =>
      ⟨of_run hrun (by decide +kernel), fun hclear => ?_⟩
    have hlast := hclear ⟨true, false⟩ (of_run hrun (by decide +kernel)) rfl
    cases hlast

end HvVerified.Http.Proofs
