import HvVerified.Lib.Runs
import HvVerified.Http.Connection
import HvVerified.Http.Proofs.SegmentationProofs

/-!
# Requests and their responses

The requests handed over so far do not matter for how the next one is read: a handler that has finished
a request of a keep-alive connection and was `Reset` differs from a new one in its history only
(`addHistory`). So each request is read as if it had come alone, as long as `Reset` comes between any
two of them. After a request with an asynchronous handler `Reset` comes with the next segment, and it
clears the request that the handler holds, if that has not finished.
-/

namespace HvVerified.Http.Proofs

open Lib Base Http HttpHandler List Option

variable {σ ρ : Type} {env : ServerEnv σ ρ} {h h' : HttpHandler σ ρ} {r : HttpRequest}

/-! ## History -/

structure History (ρ : Type) where
  delivered : List HttpRequest
  running : List HttpRequest
  written : List ρ

def addHistory (x : History ρ) (h : HttpHandler σ ρ) : HttpHandler σ ρ :=
  { h with
    delivered := x.delivered ++ h.delivered
    running := x.running ++ h.running
    written := x.written ++ h.written }

section

variable (x : History ρ)

theorem handleHeader_addHistory : (addHistory x h).handleHeader env = addHistory x (h.handleHeader env) := by
  rw [handleHeader, handleHeader, apply_ite (addHistory x)]
  rfl

theorem onData_addHistory (kind : DataKind) (bytes : ByteString) :
    (addHistory x h).onData env kind bytes = addHistory x (h.onData env kind bytes) := by
  cases kind with
  | url | headerValue => rfl
  | headerField =>
    have hkept : (if (addHistory x h).parser.state = .headerField then addHistory x h
          else (addHistory x h).handleHeader env) =
        addHistory x (if h.parser.state = .headerField then h else h.handleHeader env) := by
      rw [handleHeader_addHistory, apply_ite (addHistory x)]
      rfl
    simp only [onData, onHeaderField, hkept]
    rfl
  | body =>
    simp only [onData, apply_ite (addHistory x)]
    rfl

theorem checkRequest_addHistory : (addHistory x h).checkRequest env = addHistory x (h.checkRequest env) := by
  simp only [checkRequest, apply_ite (addHistory x)]
  rfl

theorem onHeadersComplete_addHistory :
    (addHistory x h).onHeadersComplete env = addHistory x (h.onHeadersComplete env) := by
  unfold onHeadersComplete
  cases env.headerHandler with
  | none => exact checkRequest_addHistory (h := h.handleRequestHeaders env) x
  | some handler =>
    simp only [apply_ite (addHistory x), ← checkRequest_addHistory]
    rfl

theorem finishRequest_addHistory : (addHistory x h).finishRequest env = addHistory x (h.finishRequest env) := by
  simp only [finishRequest, apply_ite (addHistory x)]
  rfl

theorem handleUpgrade_addHistory : (addHistory x h).handleUpgrade env = addHistory x (h.handleUpgrade env) := by
  have hreq : (addHistory x h).req = h.req := rfl
  unfold handleUpgrade
  rw [hreq]
  cases h.req.headers.get (ascii "upgrade") with
  | none => rfl
  | some value =>
    rw [apply_ite (addHistory x)]
    refine if_congr Iff.rfl ?_ rfl
    simp only [addHistory, append_assoc]

theorem onMessageComplete_addHistory :
    (addHistory x h).onMessageComplete env = addHistory x (h.onMessageComplete env) := by
  have hreq : (addHistory x h).req = h.req := rfl
  simp only [onMessageComplete, apply_ite (addHistory x)]
  refine if_congr Iff.rfl ?_ (if_congr Iff.rfl rfl (if_congr Iff.rfl ?_ ?_))
  · simp only [addHistory, append_assoc]
  · rw [← finishRequest_addHistory, ← handleUpgrade_addHistory]
    simp only [addHistory, append_assoc]
  · rw [hreq]
    cases env.handling h.req with
    | sync =>
      rw [← finishRequest_addHistory]
      simp only [addHistory, append_assoc]
    | async | close => simp only [addHistory, append_assoc]

theorem onNotice_addHistory (n : Notice) : (addHistory x h).onNotice env n = addHistory x (h.onNotice env n) := by
  cases n with
  | messageBegin | chunkHeader | chunkComplete => rfl
  | headersComplete method httpMajor httpMinor =>
    have hdone : (addHistory x h).headersCompleted env method httpMajor httpMinor =
        addHistory x (h.headersCompleted env method httpMajor httpMinor) := by
      simp only [headersCompleted, handleHeader_addHistory]
      rfl
    simp only [onNotice, hdone, onHeadersComplete_addHistory, apply_ite (addHistory x)]
    rfl
  | messageComplete =>
    simp only [onNotice, apply_ite (addHistory x), ← onMessageComplete_addHistory]
    rfl

theorem foldl_addHistory (evs : List ParserEvent) :
    evs.foldl (onEvent env) (addHistory x h) = addHistory x (evs.foldl (onEvent env) h) := by
  induction evs generalizing h with
  | nil => rfl
  | cons ev evs ih =>
    rw [foldl_cons, foldl_cons, ← ih]
    congr 1
    cases ev with
    | data kind bytes => exact onData_addHistory x kind bytes
    | notice n => exact onNotice_addHistory x n

theorem feedBytes_addHistory (bs : ByteString) :
    feedBytes env (addHistory x h) bs = (feedBytes env h bs).map (addHistory x) := by
  induction bs generalizing h with
  | nil => rfl
  | cons b bs ih =>
    have hvendored : (addHistory x h).vendored = h.vendored := rfl
    rw [feedBytes, feedBytes, hvendored]
    cases env.parser.next h.vendored b with
    | none => rfl
    | some r =>
      rw [← ih, ← foldl_addHistory]
      rfl

end

/-! ## One request -/

section

variable {s : ByteString}

structure KeepsFlags (h h' : HttpHandler σ ρ) : Prop where
  keepalive : h'.keepalive = h.keepalive
  upgrade : h'.upgrade = h.upgrade
  delivered : h'.delivered = h.delivered

theorem KeepsFlags.trans {h₁ h₂ h₃ : HttpHandler σ ρ} (a : KeepsFlags h₁ h₂) (b : KeepsFlags h₂ h₃) :
    KeepsFlags h₁ h₃ :=
  ⟨b.keepalive.trans a.keepalive, b.upgrade.trans a.upgrade, b.delivered.trans a.delivered⟩

theorem keepsFlags_finishRequest : KeepsFlags h (h.finishRequest env) := by
  unfold finishRequest
  split_ifs
  · exact ⟨rfl, rfl, rfl⟩
  · exact ⟨rfl, rfl, rfl⟩

theorem keepsFlags_handleUpgrade : KeepsFlags h (h.handleUpgrade env) := by
  unfold handleUpgrade
  cases h.req.headers.get (ascii "upgrade") with
  | none => exact ⟨rfl, rfl, rfl⟩
  | some value =>
    dsimp only
    split_ifs
    · exact ⟨rfl, rfl, rfl⟩
    · exact ⟨rfl, rfl, rfl⟩

theorem keepsFlags_onMessageComplete (herr : h.error = .none) (hproxy : h.proxy = false) :
    KeepsFlags { h with delivered := h.delivered ++ [h.req] } (h.onMessageComplete env) := by
  simp only [onMessageComplete, herr, hproxy, ne_eq, not_true_eq_false, if_false, Bool.false_eq_true]
  split_ifs
  · exact keepsFlags_handleUpgrade.trans keepsFlags_finishRequest
  · cases env.handling h.req with
    | sync =>
      refine KeepsFlags.trans ?_ keepsFlags_finishRequest
      exact ⟨rfl, rfl, rfl⟩
    | async | close => exact ⟨rfl, rfl, rfl⟩

/-- A handler that has read a request up to the notice that it is complete. -/
structure Ready (env : ServerEnv σ ρ) (s : ByteString) (h : HttpHandler σ ρ) : Prop where
  protocol : h.protocol = .httpV1
  state : h.state = .wantRecv
  error : h.error = .none
  keepalive : h.keepalive
  upgrade : h.upgrade = false
  proxy : h.proxy = false
  delivered : h.delivered = []
  running : h.running = []
  written : h.written = []
  req : h.req = requestOf env s

theorem delivered_of_proxy (herr : h.error = .none) (hproxy : h.proxy) :
    (h.onMessageComplete env).delivered = h.delivered := by
  simp only [onMessageComplete, herr, hproxy, ne_eq, not_true_eq_false, if_false, if_true]

theorem ready_of_keepAlive (hk : KeepAliveRequest env s) :
    ∃ h, Ready env s h ∧ feedBytes env (httpHandler env) s = some (h.onMessageComplete env) := by
  obtain ⟨st', h₀, habs, hfeed⟩ := feedBytes_request (h := httpHandler env) hk.valid
  obtain ⟨hdel, hkeep, hup⟩ := And.intro hk.accepted (And.intro hk.keepalive hk.upgrade)
  rw [readAlone, feedRecvData_of_feedBytes rfl rfl hfeed] at hdel hkeep hup
  have hstuck : h₀.stuck = false := by
    by_contra hs
    rw [delivered_of_stuck (by simpa using hs), habs.delivered] at hdel
    cases hdel
  obtain ⟨hclose, herr⟩ := not_stuck_iff.1 hstuck
  -- the notice records the end of the message, and then `onMessageComplete` is called
  obtain ⟨h, hh⟩ : ∃ h, h = { h₀ with parser := { h₀.parser with state := .messageComplete } } := ⟨_, rfl⟩
  have hnotice : h₀.onNotice env .messageComplete = h.onMessageComplete env := by
    rw [hh]
    exact if_neg hclose
  rw [hnotice] at hdel hkeep hup hfeed
  have herr' : h.error = .none := by rw [hh]; exact herr
  have hdel' : h.delivered = [] := by rw [hh]; exact habs.delivered
  have hproxy : h.proxy = false := by
    by_contra hp
    rw [delivered_of_proxy herr' (by simpa using hp), hdel'] at hdel
    cases hdel
  have hflags : KeepsFlags { h with delivered := h.delivered ++ [h.req] } (h.onMessageComplete env) :=
    keepsFlags_onMessageComplete herr' hproxy
  rw [hflags.delivered, hdel'] at hdel
  refine ⟨h, ?_, hfeed⟩
  exact
    { protocol := by rw [hh]; exact habs.protocol
      state := by rw [hh]; exact habs.state.resolve_right hclose
      error := herr'
      keepalive := hflags.keepalive.symm.trans hkeep
      upgrade := hflags.upgrade.symm.trans hup
      proxy := hproxy
      delivered := hdel'
      running := by rw [hh]; exact habs.running
      written := by rw [hh]; exact habs.written
      req := singleton_inj.1 hdel }

/-- After a request with a synchronous handler the connection is as before it, but for its history. -/
theorem answered (hk : KeepAliveRequest env s) (hsync : env.handling (requestOf env s) = .sync) :
    feedBytes env (httpHandler env) s =
      some (addHistory ⟨[requestOf env s], [], [env.respond (requestOf env s)]⟩ (httpHandler env)) := by
  obtain ⟨h, hready, hfeed⟩ := ready_of_keepAlive hk
  rw [hfeed]
  obtain ⟨protocol, state, error, keepalive, upgrade, proxy, parser, vendored, req, delivered, running, written⟩ := h
  obtain ⟨rfl, rfl, rfl, rfl, rfl, rfl, rfl, rfl, rfl, rfl⟩ := hready
  simp only [onMessageComplete, hsync, ne_eq, not_true_eq_false, if_false, Bool.false_eq_true, finishRequest, if_true]
  rfl

structure Waiting (env : ServerEnv σ ρ) (x : History ρ) (r : HttpRequest) (h : HttpHandler σ ρ) : Prop where
  protocol : h.protocol = .httpV1
  state : h.state = .handleContinue
  error : h.error = .none
  req : h.req = r
  reset : h.reset env = addHistory x (httpHandler env)

theorem Waiting.history {x : History ρ} (hw : Waiting env x r h) :
    h.running = x.running ∧ h.delivered = x.delivered ∧ h.written = x.written :=
  ⟨(congrArg HttpHandler.running hw.reset).trans (append_nil _),
    (congrArg HttpHandler.delivered hw.reset).trans (append_nil _),
    (congrArg HttpHandler.written hw.reset).trans (append_nil _)⟩

theorem waiting_of_async (hk : KeepAliveRequest env s) (hasync : env.handling (requestOf env s) = .async) :
    ∃ h, feedBytes env (httpHandler env) s = some h ∧
      Waiting env ⟨[requestOf env s], [requestOf env s], []⟩ (requestOf env s) h := by
  obtain ⟨h, hready, hfeed⟩ := ready_of_keepAlive hk
  refine ⟨_, hfeed, ?_⟩
  obtain ⟨protocol, state, error, keepalive, upgrade, proxy, parser, vendored, req, delivered, running, written⟩ := h
  obtain ⟨rfl, rfl, rfl, rfl, rfl, rfl, rfl, rfl, rfl, rfl⟩ := hready
  simp only [onMessageComplete, hasync, ne_eq, not_true_eq_false, if_false, Bool.false_eq_true]
  exact ⟨rfl, rfl, rfl, rfl, rfl⟩

structure Open (h : HttpHandler σ ρ) : Prop where
  protocol : h.protocol = .httpV1
  state : h.state = .wantRecv
  error : h.error = .none
  delivered : h.delivered = []
  running : h.running = []
  written : h.written = []

theorem open_of_part {past rest : ByteString} (hk : KeepAliveRequest env (past ++ rest)) (hrest : rest ≠ []) :
    ∃ h, feedBytes env (httpHandler env) past = some h ∧ Open h := by
  obtain ⟨h, seen, hfeed, habs, hc⟩ := feedBytes_part (h := httpHandler env) hk.valid hrest
  have hstuck : h.stuck = false := by
    by_contra hs
    obtain ⟨h', hfeed', hdel⟩ := delivered_feedBytes_of_stuck (by simpa using hs) hc
    obtain ⟨h₁, hready, hwhole⟩ := ready_of_keepAlive hk
    rw [feedBytes_append, hfeed, bind_some, hfeed', some_inj] at hwhole
    have hnil : (h₁.onMessageComplete env).delivered = [] := by
      rw [← hwhole, hdel, habs.delivered]
      rfl
    rw [(keepsFlags_onMessageComplete hready.error hready.proxy).delivered] at hnil
    simp at hnil
  obtain ⟨hclose, herr⟩ := not_stuck_iff.1 hstuck
  exact ⟨h, hfeed, habs.protocol, habs.state.resolve_right hclose, herr, habs.delivered, habs.running, habs.written⟩

end

/-! ## A segment -/

section

variable {done rem : List ByteString} {past seg s : ByteString} {g : HttpHandler σ ρ}

/-- The history of a connection on which the requests `done` have been answered. -/
def served (env : ServerEnv σ ρ) (done : List ByteString) : History ρ :=
  ⟨done.map (requestOf env), [], done.map fun s => env.respond (requestOf env s)⟩

/-- `past` has been received of the next request. -/
def Part : ByteString → List ByteString → Prop
  | past, [] => past = []
  | past, s :: _ => ∃ rest, rest ≠ [] ∧ past ++ rest = s

theorem part_nil (hrem : ∀ s ∈ rem, KeepAliveRequest env s) : Part [] rem := by
  cases rem with
  | nil => rfl
  | cons s rem => exact ⟨s, ne_nil_of_completes (hrem s mem_cons_self).valid, rfl⟩

theorem open_of_mid (hrem : ∀ s ∈ rem, KeepAliveRequest env s) (hpart : Part past rem)
    (hg : feedBytes env (httpHandler env) past = some g) : Open g := by
  cases rem with
  | nil =>
    obtain rfl : past = [] := hpart
    obtain rfl := some_inj.1 hg
    exact ⟨rfl, rfl, rfl, rfl, rfl, rfl⟩
  | cons s rem =>
    obtain ⟨rest, hrest, rfl⟩ := hpart
    obtain ⟨h, hfeed, hopen⟩ := open_of_part (hrem _ mem_cons_self) hrest
    obtain rfl := some_inj.1 (hg.symm.trans hfeed)
    exact hopen

/-- The handler when the requests `done` and a part `past` of the next one have been received: it reads on,
    or it waits for the segment after a request with an asynchronous handler. -/
inductive Fed (env : ServerEnv σ ρ) : List ByteString → List ByteString → ByteString → HttpHandler σ ρ → Prop where
  | reading {done rem : List ByteString} {past : ByteString} {g : HttpHandler σ ρ} (hpart : Part past rem)
      (hg : feedBytes env (httpHandler env) past = some g) : Fed env done rem past (addHistory (served env done) g)
  | running {done rem : List ByteString} {s : ByteString} {h : HttpHandler σ ρ}
      (hw : Waiting env ⟨(done ++ [s]).map (requestOf env), [requestOf env s], (served env done).written⟩
        (requestOf env s) h) : Fed env (done ++ [s]) rem [] h
  | finished {done rem : List ByteString} {r : HttpRequest} {h : HttpHandler σ ρ}
      (hw : Waiting env (served env done) r h) : Fed env done rem [] h

theorem Fed.not_stuck (hrem : ∀ s ∈ rem, KeepAliveRequest env s) (hfed : Fed env done rem past h) :
    h.stuck = false := by
  cases hfed with
  | reading hpart hg =>
    have hopen := open_of_mid hrem hpart hg
    rw [not_stuck_iff]
    exact ⟨by simp [addHistory, hopen.state], hopen.error⟩
  | running hw => exact not_stuck_iff.2 ⟨by simp [hw.state], hw.error⟩
  | finished hw => exact not_stuck_iff.2 ⟨by simp [hw.state], hw.error⟩

/-- No request with an asynchronous handler ends strictly between two positions of the stream. -/
def NoAsyncEnd (env : ServerEnv σ ρ) (rem : List ByteString) (a b : Nat) : Prop :=
  ∀ pre s post, rem = pre ++ s :: post → env.handling (requestOf env s) = .async →
    a < (pre ++ [s]).flatten.length → b ≤ (pre ++ [s]).flatten.length

theorem addHistory_served (s : ByteString) (h : HttpHandler σ ρ) :
    addHistory (served env done) (addHistory ⟨[requestOf env s], [], [env.respond (requestOf env s)]⟩ h) =
      addHistory (served env (done ++ [s])) h := by
  simp [addHistory, served]

theorem waiting_addHistory {x : History ρ} (hw : Waiting env x r h) (y : History ρ) :
    Waiting env ⟨y.delivered ++ x.delivered, y.running ++ x.running, y.written ++ x.written⟩ r (addHistory y h) := by
  refine ⟨hw.protocol, hw.state, hw.error, hw.req, ?_⟩
  have hreset : (addHistory y h).reset env = addHistory y (h.reset env) := rfl
  rw [hreset, hw.reset]
  simp [addHistory]

theorem feedBytes_rest {rest : ByteString} {h' : HttpHandler σ ρ} (x : History ρ)
    (hg : feedBytes env (httpHandler env) past = some g)
    (hwhole : feedBytes env (httpHandler env) (past ++ rest) = some h') :
    feedBytes env (addHistory x g) rest = some (addHistory x h') := by
  rw [feedBytes_append, hg, bind_some] at hwhole
  rw [feedBytes_addHistory, hwhole, map_some]

/-- One segment: induction on the requests that are not complete yet. -/
theorem fed_segment (done : List ByteString) (hrem : ∀ s ∈ rem, KeepAliveRequest env s) (hpart : Part past rem)
    (hg : feedBytes env (httpHandler env) past = some g) (hseg : past ++ seg <+: rem.flatten)
    (hasync : NoAsyncEnd env rem past.length (past.length + seg.length)) :
    ∃ done' rem' past' h', done' ++ rem' = done ++ rem ∧ done'.flatten ++ past' = done.flatten ++ past ++ seg ∧
      feedBytes env (addHistory (served env done) g) seg = some h' ∧ Fed env done' rem' past' h' := by
  induction rem generalizing done past seg g with
  | nil =>
    obtain rfl : past = [] := hpart
    obtain rfl : seg = [] := by simpa using hseg
    exact ⟨done, [], [], _, rfl, by simp, rfl, .reading rfl hg⟩
  | cons s rem ih =>
    have hk : KeepAliveRequest env s := hrem s mem_cons_self
    obtain ⟨rest, hrest, rfl⟩ := hpart
    rw [flatten_cons, append_assoc, prefix_append_right_inj] at hseg
    by_cases hlen : seg.length < rest.length
    · -- the request is not complete yet
      obtain ⟨rest', rfl⟩ := prefix_of_prefix_length_le hseg (prefix_append rest rem.flatten) hlen.le
      have hrest' : rest' ≠ [] := by
        rintro rfl
        simp at hlen
      rw [← append_assoc] at hk
      obtain ⟨h', hfeed, -⟩ := open_of_part hk hrest'
      exact ⟨done, _, past ++ seg, _, rfl, by simp, feedBytes_rest _ hg hfeed,
        .reading ⟨rest', hrest', by simp⟩ hfeed⟩
    · obtain ⟨seg', rfl⟩ :=
        prefix_of_prefix_length_le (prefix_append rest rem.flatten) hseg (Nat.not_lt.1 hlen)
      rw [prefix_append_right_inj] at hseg
      cases hhandling : env.handling (requestOf env (past ++ rest)) with
      | close => exact absurd hhandling hk.handled
      | sync =>
        have hfeed := feedBytes_rest (served env done) hg (answered hk hhandling)
        rw [addHistory_served] at hfeed
        have hrem' : ∀ s ∈ rem, KeepAliveRequest env s := fun s hs => hrem s (mem_cons_of_mem _ hs)
        have hnext : feedBytes env (httpHandler env) [] = some (httpHandler env) := rfl
        have hasync' : NoAsyncEnd env rem ([] : ByteString).length (([] : ByteString).length + seg'.length) := by
          intro pre s post hsplit hs hpos
          have hend := hasync ((past ++ rest) :: pre) s post (by rw [hsplit]; rfl) hs
          simp only [cons_append, flatten_cons, length_append, length_nil] at hend hpos ⊢
          omega
        obtain ⟨done', rem', past', h', hreqs, hbytes, hfeed', hfed⟩ :=
          ih (done ++ [past ++ rest]) hrem' (part_nil hrem') hnext hseg hasync'
        refine ⟨done', rem', past', h', by simp [hreqs], by simp [hbytes], ?_, hfed⟩
        rw [feedBytes_append, hfeed]
        exact hfeed'
      | async =>
        obtain ⟨h', hfeed, hw⟩ := waiting_of_async hk hhandling
        -- the segment ends with this request
        obtain rfl : seg' = [] := by
          have hend := hasync [] (past ++ rest) rem rfl hhandling
          have hpos : 0 < rest.length := length_pos_iff.2 hrest
          simp only [nil_append, flatten_cons, flatten_nil, append_nil, length_append] at hend
          exact length_eq_zero_iff.1 (by omega)
        rw [append_nil]
        refine ⟨done ++ [past ++ rest], rem, [], _, by simp, by simp, feedBytes_rest _ hg hfeed, .running ?_⟩
        simpa [served] using waiting_addHistory hw (served env done)

end

/-! ## Runs of a connection -/

section

variable {reqs done rem : List ByteString} {past : ByteString} {conn conn' : Connection σ ρ} {n : Nat}

/-- The states of a connection in the runs that are allowed. -/
inductive ConnInv (env : ServerEnv σ ρ) (reqs : List ByteString) : Connection σ ρ → Prop where
  /-- the first segment was refused -/
  | refused {conn : Connection σ ρ} (hclosed : conn.closed) (hdelivered : conn.handler.delivered = [])
      (hrunning : conn.handler.running = []) (hwritten : conn.handler.written = []) : ConnInv env reqs conn
  | fresh : ConnInv env reqs (newConnection env)
  | fed {done rem : List ByteString} {past : ByteString} {h : HttpHandler σ ρ} (hreqs : done ++ rem = reqs)
      (hfed : Fed env done rem past h) : ConnInv env reqs ⟨h, false, done.flatten.length + past.length⟩

theorem flatten_of_part (hpart : Part past rem) : past <+: rem.flatten := by
  cases rem with
  | nil =>
    obtain rfl : past = [] := hpart
    exact nil_prefix
  | cons s rem =>
    obtain ⟨rest, -, rfl⟩ := hpart
    rw [flatten_cons, append_assoc]
    exact prefix_append past _

theorem noAsyncEnd_of_allowed (hreqs : done ++ rem = reqs) (hrecv : conn.received = done.flatten.length + past.length)
    (hok : recvAllowed env reqs conn (.recv n)) : NoAsyncEnd env rem past.length (past.length + n) := by
  intro pre s post hsplit hasync hpos
  subst hreqs hsplit
  have hk := all_eq_true.1 (Bool.and_eq_true_iff.1 hok).2 (done ++ pre).length (by simp)
  have hget : (done ++ (pre ++ s :: post)).getD (done ++ pre).length [] = s := by
    simp
  have htake : (done ++ (pre ++ s :: post)).take ((done ++ pre).length + 1) = done ++ (pre ++ [s]) := by
    have hshape : done ++ (pre ++ s :: post) = (done ++ (pre ++ [s])) ++ post := by simp
    rw [hshape]
    exact take_left' (by simp [Nat.add_assoc])
  rw [hget, htake, hrecv] at hk
  simp only [hasync, decide_true, Bool.true_and, Bool.not_eq_true', Bool.and_eq_false_iff, decide_eq_false_iff_not,
    flatten_append, length_append] at hk hpos ⊢
  omega

theorem keepAlive_rest (hall : ∀ s ∈ reqs, KeepAliveRequest env s) (hreqs : done ++ rem = reqs) :
    ∀ s ∈ rem, KeepAliveRequest env s :=
  fun s hs => hall s (by rw [← hreqs]; exact mem_append_right _ hs)

theorem connInv_recv_reading {g : HttpHandler σ ρ} (hall : ∀ s ∈ reqs, KeepAliveRequest env s)
    (hreqs : done ++ rem = reqs) (hpart : Part past rem) (hg : feedBytes env (httpHandler env) past = some g)
    (hrecv : conn.received = done.flatten.length + past.length)
    (hok : recvAllowed env reqs conn (.recv n)) (hn : conn.received + n ≤ reqs.flatten.length)
    (hfeed : feedRecvData env conn.handler ((reqs.flatten.drop conn.received).take n) =
      feedRecvData env (addHistory (served env done) g) ((reqs.flatten.drop conn.received).take n)) :
    ConnInv env reqs (onRecv env reqs.flatten conn n) := by
  have hrem := keepAlive_rest hall hreqs
  obtain ⟨u, hu⟩ := flatten_of_part hpart
  have hstream : reqs.flatten = done.flatten ++ past ++ u := by
    rw [← hreqs, flatten_append, ← hu, append_assoc]
  have hrest : reqs.flatten.drop conn.received = u := by
    rw [hstream, hrecv, ← length_append, drop_left]
  have hlen : (u.take n).length = n := by
    rw [hstream, length_append, length_append, ← hrecv] at hn
    exact length_take_of_le (by omega)
  have hasync := noAsyncEnd_of_allowed hreqs hrecv hok
  rw [← hlen] at hasync
  have hseg : past ++ u.take n <+: rem.flatten := by
    rw [← hu, prefix_append_right_inj]
    exact take_prefix n u
  obtain ⟨done', rem', past', h', hreqs', hbytes, hbytes', hfed⟩ := fed_segment done hrem hpart hg hseg hasync
  have hrem' : ∀ s ∈ rem', KeepAliveRequest env s := fun s hs => hall s (by rw [← hreqs, ← hreqs']; simp [hs])
  have hopen := open_of_mid hrem hpart hg
  rw [hrest, feedRecvData_of_feedBytes (h := addHistory (served env done) g) hopen.protocol hopen.state hbytes',
    feedResult_of_not_stuck (hfed.not_stuck hrem'), hlen] at hfeed
  have hreceived : conn.received + n = done'.flatten.length + past'.length := by
    have := congrArg length hbytes
    simp only [length_append, hlen] at this
    omega
  have hconn : onRecv env reqs.flatten conn n = ⟨h', false, done'.flatten.length + past'.length⟩ := by
    simp only [onRecv, hrest, hfeed, hreceived, ne_eq, not_true_eq_false, decide_false]
  rw [hconn]
  exact .fed (hreqs'.trans hreqs) hfed

/-- After a request with an asynchronous handler the next segment is preceded by `Reset`. -/
theorem feedRecvData_of_waiting {x : History ρ} (hw : Waiting env x r h) (seg : ByteString) :
    feedRecvData env h seg = feedRecvData env (addHistory x (httpHandler env)) seg := by
  have hprot : (h.reset env).protocol = .httpV1 := hw.protocol
  have hstate : (h.reset env).state = .wantRecv := rfl
  rw [← hw.reset]
  simp only [feedRecvData, hw.protocol, hprot, feedHttp, hw.state, hstate, ne_eq, reduceCtorEq, not_false_eq_true,
    not_true_eq_false, if_true, if_false]

theorem connInv_recv (hall : ∀ s ∈ reqs, KeepAliveRequest env s) (hinv : ConnInv env reqs conn)
    (hok : recvAllowed env reqs conn (.recv n)) (hopen : conn.closed = false)
    (hn : conn.received + n ≤ reqs.flatten.length) : ConnInv env reqs (onRecv env reqs.flatten conn n) := by
  have hidle : conn.handler.running = [] := isEmpty_iff.1 (Bool.and_eq_true_iff.1 hok).1
  cases hinv with
  | refused hclosed =>
    rw [hclosed] at hopen
    cases hopen
  | fresh =>
    cases hrec : recognised ((reqs.flatten.drop 0).take n) with
    | true =>
      exact connInv_recv_reading hall (nil_append reqs) (part_nil hall) rfl rfl hok hn
        (feedRecvData_of_recognised hrec)
    | false =>
      have hfeed : feedRecvData env (newHandler env) ((reqs.flatten.drop 0).take n) = _ :=
        feedRecvData_of_not_recognised hrec
      have hconn : onRecv env reqs.flatten (newConnection env) n =
          ⟨(newHandler env).setError .request, true, 0 + n⟩ := by
        simp only [onRecv, newConnection, hfeed, Connection.mk.injEq, decide_eq_true_eq, true_and, and_true]
        omega
      rw [hconn]
      exact .refused rfl rfl rfl rfl
  | fed hreqs hfed =>
    cases hfed with
    | reading hpart hg => exact connInv_recv_reading hall hreqs hpart hg rfl hok hn rfl
    | running hw =>
      rw [hw.history.1] at hidle
      cases hidle
    | finished hw =>
      have hrem := keepAlive_rest hall hreqs
      exact connInv_recv_reading hall hreqs (part_nil hrem) rfl rfl hok hn (feedRecvData_of_waiting hw _)

theorem finished_of_running {s : ByteString}
    (hw : Waiting env ⟨(done ++ [s]).map (requestOf env), [requestOf env s], (served env done).written⟩
      (requestOf env s) h) : Waiting env (served env (done ++ [s])) (requestOf env s)
      { h with running := [], written := h.written ++ [env.respond h.req] } := by
  refine ⟨hw.protocol, hw.state, hw.error, hw.req, ?_⟩
  have hreset : HttpHandler.reset env { h with running := [], written := h.written ++ [env.respond h.req] } =
      { h.reset env with running := [], written := (h.reset env).written ++ [env.respond h.req] } := rfl
  rw [hreset, hw.reset, hw.req]
  simp [addHistory, served, httpHandler, newHandler]

theorem connInv_step (hall : ∀ s ∈ reqs, KeepAliveRequest env s) {act : ConnAction} (hinv : ConnInv env reqs conn)
    (hok : recvAllowed env reqs conn act) (hs : connStep env reqs.flatten conn act = some conn') :
    ConnInv env reqs conn' := by
  cases act with
  | recv n =>
    simp only [connStep] at hs
    split_ifs at hs with hrecv
    obtain rfl := some_inj.1 hs
    exact connInv_recv hall hinv hok hrecv.1 hrecv.2.2
  | finish i =>
    simp only [connStep] at hs
    split_ifs at hs with hi
    obtain rfl := some_inj.1 hs
    cases hinv with
    | refused _ _ hrunning =>
      rw [hrunning] at hi
      exact absurd hi (Nat.not_lt_zero i)
    | fresh => exact absurd hi (Nat.not_lt_zero i)
    | fed hreqs hfed =>
      cases hfed with
      | reading hpart hg =>
        have hidle := (open_of_mid (keepAlive_rest hall hreqs) hpart hg).running
        simp [addHistory, served, hidle] at hi
      | running hw =>
        obtain rfl : i = 0 := by simpa [hw.history.1] using hi
        have hconn := ConnInv.fed hreqs (.finished (finished_of_running hw))
        simpa [onFinish, hw.history.1] using hconn
      | finished hw =>
        rw [hw.history.1] at hi
        exact absurd hi (Nat.not_lt_zero i)

theorem length_lt_of_part (hpart : Part past rem) (hrem : 0 < rem.length) :
    past.length < (rem.take 1).flatten.length := by
  cases rem with
  | nil => cases hrem
  | cons s rem =>
    obtain ⟨rest, hrest, rfl⟩ := hpart
    have hpos : 0 < rest.length := length_pos_iff.2 hrest
    simp
    omega

theorem paired_of_done {j : Nat} (hreqs : done ++ rem = reqs) (hpart : Part past rem) (hj : j ≤ done.length)
    (hdelivered : h.delivered = done.map (requestOf env)) (hrunning : h.running = (done.drop j).map (requestOf env))
    (hreq : ∀ r ∈ h.running, h.req = r)
    (hwritten : h.written = (done.take j).map (fun s => env.respond (requestOf env s))) :
    Paired env reqs ⟨h, false, done.flatten.length + past.length⟩ := by
  subst hreqs
  have hdone : (done ++ rem).take done.length = done := take_left
  have hj' : (done ++ rem).take j = done.take j := take_append_of_le_length hj
  have hnext : (done ++ rem).take (done.length + 1) = done ++ rem.take 1 := take_length_add_append 1
  refine ⟨j, done.length, hj, by simp, ?_, ?_, hreq, ?_, ?_⟩
  · rw [hdone]
    exact hdelivered
  · rw [hdone]
    exact hrunning
  · rw [hj']
    exact hwritten
  · intro _
    rw [hdone, hnext]
    refine ⟨Nat.le_add_right _ _, fun hlen => ?_⟩
    have hlt := length_lt_of_part hpart (by rw [length_append] at hlen; omega)
    rw [flatten_append, length_append]
    exact Nat.add_lt_add_left hlt _

theorem paired_of_connInv (hall : ∀ s ∈ reqs, KeepAliveRequest env s) (hinv : ConnInv env reqs conn) :
    Paired env reqs conn := by
  cases hinv with
  | refused hclosed hdelivered hrunning hwritten =>
    refine ⟨0, 0, le_rfl, Nat.zero_le _, hdelivered, hrunning, ?_, hwritten, ?_⟩
    · simp [hrunning]
    · simp [hclosed]
  | fresh =>
    exact paired_of_done (nil_append reqs) (part_nil hall) le_rfl rfl rfl (fun r hr => by cases hr) rfl
  | fed hreqs hfed =>
    have hrem := keepAlive_rest hall hreqs
    cases hfed with
    | reading hpart hg =>
      have hopen := open_of_mid hrem hpart hg
      refine paired_of_done hreqs hpart le_rfl ?_ ?_ ?_ ?_
      · simp [addHistory, served, hopen.delivered]
      · simp [addHistory, served, hopen.running]
      · simp [addHistory, served, hopen.running]
      · simp [addHistory, served, hopen.written]
    | @running done _ s _ hw =>
      refine paired_of_done (j := done.length) hreqs (part_nil hrem) (by simp) ?_ ?_ ?_ ?_
      · exact hw.history.2.1
      · simpa using hw.history.1
      · simp [hw.history.1, hw.req]
      · simpa [served] using hw.history.2.2
    | finished hw =>
      refine paired_of_done hreqs (part_nil hrem) le_rfl hw.history.2.1 ?_ ?_ ?_
      · simpa [served] using hw.history.1
      · simp [hw.history.1, served]
      · simpa [served] using hw.history.2.2

end

/-- In the runs in which bytes arrive only while no asynchronous handler runs, and no segment goes on behind
    a request with an asynchronous handler: every handler is given its own request and sees it unchanged until
    it finishes, and the responses are those to the requests in order. -/
theorem requests_paired {env : ServerEnv σ ρ} {reqs : List ByteString} {conn : Connection σ ρ}
    (hall : ∀ s ∈ reqs, KeepAliveRequest env s)
    (h : Reachable (connStep env reqs.flatten) (fun conn act => recvAllowed env reqs conn act = true)
      (· = newConnection env) conn) : Paired env reqs conn := by
  have hinv : ConnInv env reqs conn := by
    refine h.invariant (I := ConnInv env reqs) ?_ ?_
    · rintro conn rfl
      exact .fresh
    · intro conn act conn' hinv hok hs
      exact connInv_step hall hinv hok hs
  exact paired_of_connInv hall hinv

def asyncEnv : ServerEnv Nat ByteString := { getEnv with handling := fun _ => .async }

def getTwice : List ByteString := [ascii "GET / HTTP/1.1\r\n\r\n", ascii "GET / HTTP/1.1\r\n\r\n"]

theorem keepAlive_getTwice : ∀ s ∈ getTwice, KeepAliveRequest asyncEnv s := by
  have hget : KeepAliveRequest asyncEnv (ascii "GET / HTTP/1.1\r\n\r\n") :=
    ⟨by decide, rfl, by decide, by decide, by decide⟩
  simpa [getTwice] using hget

/-- Two requests, each in a segment of its own, the second one when the first is answered. -/
theorem requests_paired_two :
    ∃ conn, runFrom (guarded (connStep asyncEnv getTwice.flatten) fun conn act =>
        recvAllowed asyncEnv getTwice conn act = true) (newConnection asyncEnv) [.recv 18, .finish 0, .recv 18] =
      some conn ∧ conn.handler.written = [ascii "/"] ∧ conn.handler.running.length = 1 ∧
      Paired asyncEnv getTwice conn := by
  refine exists_run rfl fun conn hs => ⟨?_, ?_, requests_paired keepAlive_getTwice (Reachable.runGuarded _ (.start rfl) hs)⟩
  all_goals exact Option.some.inj hs ▸ rfl

/-- The first byte of the second request comes while the handler of the first one runs: the request that the
    handler holds is cleared. -/
theorem running_request_cleared : (∀ s ∈ getTwice, KeepAliveRequest asyncEnv s) ∧
    ∃ conn, Reachable (connStep asyncEnv getTwice.flatten) Always (· = newConnection asyncEnv) conn ∧
      conn.handler.running.map (·.url) = [ascii "/"] ∧ conn.handler.req.url = [] ∧ ¬ Paired asyncEnv getTwice conn := by
  refine ⟨keepAlive_getTwice, ?_⟩
  refine exists_reached [.recv 18, .recv 1] rfl (by decide +kernel) fun conn _ hs => ?_
  obtain ⟨hurls, hurl⟩ : conn.handler.running.map (·.url) = [ascii "/"] ∧ conn.handler.req.url = [] := of_run hs
    (by decide +kernel)
  refine ⟨hurls, hurl, ?_⟩
  rintro ⟨j, k, -, -, -, -, hreq, -, -⟩
  have hmem : ascii "/" ∈ conn.handler.running.map (·.url) := by
    rw [hurls]
    exact mem_singleton_self _
  obtain ⟨r, hr, hrurl⟩ := mem_map.1 hmem
  rw [← hreq r hr, hurl] at hrurl
  cases hrurl

end HvVerified.Http.Proofs
