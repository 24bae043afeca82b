import HvVerified.Http.HttpClient
import HvVerified.Lib.Runs

/-!
# Success of the synchronous client

While the client waits for a response, no message has been completed by the bytes that were parsed since
the request was sent, and the vendored parser is in its first state as long as there are none. If the turns
show their failures, `http_client_exec` only returns zero from a complete message.
-/

namespace HvVerified.Http.Proofs

open Base Lib List Option ClientWorld Exec

variable {σ : Type} {P : ResponseParser σ} {e e' : Exec σ}

/-! ## Turns -/

theorem checkTimeout_eq {now : Int} (h : e.checkTimeout now = some e') : ∃ t, e' = { e with leftTime := t } := by
  unfold checkTimeout at h
  dsimp only at h
  split_ifs at h
  · cases h
    exact ⟨_, rfl⟩
  · cases h
    exact ⟨e.leftTime, rfl⟩

theorem isComplete_feed (p : ClientParser σ) (data : ByteString) : (p.feed P data).isComplete ↔ p.completes P data ∨
      (p.isComplete ∧ (P.execute p.skipBody p.vendored data).callbacks = []) := by
  unfold ClientParser.feed ClientParser.completes ClientParser.isComplete
  by_cases hnil : (P.execute p.skipBody p.vendored data).callbacks = []
  · simp [hnil]
  · simp [getLast?_eq_some_getLast hnil, hnil]

/-- While a response is awaited, nothing has been completed since the request was sent. -/
def AwaitsFresh (P : ResponseParser σ) (e : Exec σ) : Prop :=
  e.pc = .recv → e.completed = false ∧ (e.received = [] → e.cli.parser.vendored = P.init)

/-- A turn ends with an error, with a complete response, or the response is still awaited. -/
def TurnFresh (P : ResponseParser σ) : Turn σ → Prop
  | .next e => AwaitsFresh P e
  | .return_ e code => code = 0 → e.received ≠ [] ∧ e.completed

theorem turnFresh_timedOut : TurnFresh P e.timedOut := nofun

theorem turnFresh_retry (h : e.err ≠ 0) : TurnFresh P e.retryOrDisconnect := by
  unfold retryOrDisconnect
  split_ifs
  · exact nofun
  · exact fun hzero => absurd hzero h

theorem awaitsFresh_awaitResponse (e : Exec σ) : AwaitsFresh P (e.awaitResponse P) := fun _ => ⟨rfl, fun _ => rfl⟩

theorem awaitsFresh_submit (e : Exec σ) : AwaitsFresh P (e.submit P) := by
  unfold submit
  dsimp only
  split_ifs
  · exact awaitsFresh_awaitResponse _
  · exact nofun

theorem awaitsFresh_startTurn (e : Exec σ) (now : Int) : AwaitsFresh P (e.startTurn P now) := by
  unfold startTurn
  dsimp only
  split_ifs
  · exact awaitsFresh_submit _
  · exact nofun

theorem turnFresh_connectTurn (e : Exec σ) (conn : Nat) {failure : Option Int}
    (hfailure : (failure.all fun code => code < 0)) (now : Int) :
    TurnFresh P (e.connectTurn P conn failure now) := by
  unfold connectTurn
  cases failure with
  | some code =>
    intro hzero
    simp only [all_some, decide_eq_true_eq] at hfailure
    omega
  | none =>
    dsimp only
    split
    · exact turnFresh_timedOut
    · exact awaitsFresh_submit _

theorem turnFresh_sendTurn {io : IoTurn} (hcancel : io.cancel = false) (hcancelled : io.cancelled = false)
    (herrno : io.result = none → io.errno ≠ 0) (hpc : e.pc = .send) : TurnFresh P (e.sendTurn P io) := by
  unfold sendTurn
  split
  · exact turnFresh_timedOut
  · next e' hcheck =>
    obtain ⟨t, rfl⟩ := checkTimeout_eq hcheck
    rw [if_neg (by simp [hcancel, hcancelled])]
    split
    · -- some bytes are sent
      unfold sentData
      dsimp only
      split_ifs
      · exact awaitsFresh_awaitResponse _
      · intro hrecv
        rw [show _ = ExecPc.send from hpc] at hrecv
        cases hrecv
    · next hresult =>
      split
      · exact turnFresh_timedOut
      · next e'' hcheck' =>
        obtain ⟨t', rfl⟩ := checkTimeout_eq hcheck'
        unfold sendFailed
        split_ifs
        · intro hrecv
          rw [show _ = ExecPc.send from hpc] at hrecv
          cases hrecv
        · exact turnFresh_retry (herrno hresult)

theorem turnFresh_succeed (h : e.received ≠ [] ∧ e.completed) : TurnFresh P (e.succeed P) := by
  unfold succeed
  split_ifs
  · exact fun _ => h
  · exact fun _ => h

theorem completed_feed (e : Exec σ) (data : ByteString) :
    (e.feed P data).completed ↔ e.cli.parser.completes P data ∨
      (e.completed ∧ (P.execute e.cli.parser.skipBody e.cli.parser.vendored data).callbacks = []) := by
  simp [feed]

theorem turnFresh_recvData {data : ByteString} (hdata : data ≠ []) (hfresh : e.completed = false)
    (hstale : e.cli.parser.isComplete →
      (P.execute e.cli.parser.skipBody e.cli.parser.vendored data).callbacks ≠ []) :
    TurnFresh P (e.recvData P data) := by
  have hreceived : (e.feed P data).received ≠ [] := by simp [feed, hdata]
  have hiff : (e.feed P data).cli.parser.isComplete ↔ (e.feed P data).completed := by
    rw [completed_feed, show (e.feed P data).cli.parser = e.cli.parser.feed P data from rfl, isComplete_feed, hfresh]
    constructor
    · rintro (h | ⟨h, hnil⟩)
      · exact .inl h
      · exact absurd hnil (hstale h)
    · rintro (h | ⟨h, -⟩)
      · exact .inl h
      · cases h
  unfold recvData
  split_ifs with hparse hcomplete
  · exact nofun
  · exact turnFresh_succeed ⟨hreceived, hiff.1 hcomplete⟩
  · intro _
    exact ⟨Bool.eq_false_iff.2 (fun h => hcomplete (hiff.2 h)), fun h => absurd h hreceived⟩

theorem received_ne_nil_of_eof (hawaits : e.received = [] → e.cli.parser.vendored = P.init)
    (h : e.cli.parser.completes P []) : e.received ≠ [] := by
  intro hnil
  unfold ClientParser.completes at h
  rw [hawaits hnil, P.init_eof] at h
  cases h

theorem turnFresh_recvFailed {errno : Int} (hpc : e.pc = .recv) (hawaits : AwaitsFresh P e)
    (hstate : e.cli.parser.isComplete = false) (herrno : errno ≠ 0 ∨ e.cli.parser.completes P []) :
    TurnFresh P (e.recvFailed P errno) := by
  obtain ⟨hfresh, hinit⟩ := hawaits hpc
  unfold recvFailed
  by_cases hintr : errno = eintr
  · rw [if_pos hintr, if_neg (by simp [hstate])]
    exact fun _ => ⟨hfresh, hinit⟩
  rw [if_neg hintr]
  have hiff : (e.cli.parser.feed P []).isComplete ↔ e.cli.parser.completes P [] := by
    rw [isComplete_feed, hstate]
    simp
  split_ifs with hcomplete
  · -- the response goes up to the end of the connection
    intro _
    have hcompletes := hiff.1 hcomplete
    have hreceived := received_ne_nil_of_eof hinit hcompletes
    refine ⟨?_, (completed_feed _ []).2 (.inl hcompletes)⟩
    show e.received ++ [] ≠ []
    rw [append_nil]
    exact hreceived
  · have hzero : errno ≠ 0 := herrno.resolve_right (fun h => hcomplete (hiff.2 h))
    exact turnFresh_retry hzero

theorem turnFresh_recvTurn {io : IoTurn} {data : ByteString} (hcancel : io.cancel = false)
    (hcancelled : io.cancelled = false) (hpc : e.pc = .recv) (hawaits : AwaitsFresh P e)
    (hdata : io.result ≠ none → data ≠ [] ∧ (e.cli.parser.isComplete →
      (P.execute e.cli.parser.skipBody e.cli.parser.vendored data).callbacks ≠ []))
    (hfailed : io.result = none → e.cli.parser.isComplete = false ∧
      (io.errno ≠ 0 ∨ e.cli.parser.completes P [])) : TurnFresh P (e.recvTurn P io data) := by
  unfold recvTurn
  split
  · exact turnFresh_timedOut
  · next e' hcheck =>
    obtain ⟨t, rfl⟩ := checkTimeout_eq hcheck
    rw [if_neg (by simp [hcancel, hcancelled])]
    split
    · next n hresult =>
      obtain ⟨hne, hstale⟩ := hdata (by simp [hresult])
      exact turnFresh_recvData hne (hawaits hpc).1 hstale
    · next hresult =>
      split
      · exact turnFresh_timedOut
      · next e'' hcheck' =>
        obtain ⟨t', rfl⟩ := checkTimeout_eq hcheck'
        obtain ⟨hstate, herrno⟩ := hfailed hresult
        exact turnFresh_recvFailed hpc hawaits hstate herrno

/-! ## Steps -/

variable {env : ClientEnv σ} {w w' : ClientWorld σ}

inductive ClientCase (env : ClientEnv σ) (w : ClientWorld σ) : ClientAct → ClientWorld σ → Prop where
  | call (req : ClientRequest) (hexec : w.exec = none) :
      ClientCase env w (.call req) { w with calls := w.calls + 1, exec := some (newExec w.cli false req) }
  | start (now : Int) {e : Exec σ} (hexec : w.exec = some e) (hpc : e.pc = .start) :
      ClientCase env w (.start now) { w with exec := some (e.startTurn env.parser now) }
  | connected (now : Int) {e : Exec σ} (hexec : w.exec = some e) (hpc : e.pc = .connect) :
      ClientCase env w (.connect none now)
        (afterTurn env { w.updateConn w.nconns (fun _ => ⟨e.req.https, [], false⟩) with nconns := w.nconns + 1 }
          (e.connectTurn env.parser w.nconns none now))
  | connectFailed (code now : Int) {e : Exec σ} (hexec : w.exec = some e) (hpc : e.pc = .connect) (hcode : code < 0) :
      ClientCase env w (.connect (some code) now)
        (w.afterTurn env (e.connectTurn env.parser w.nconns (some code) now))
  | send (io : IoTurn) {e : Exec σ} {conn : Nat} (hexec : w.exec = some e) (hfd : e.cli.fd = some conn)
      (hpc : e.pc = .send) :
      ClientCase env w (.send io)
        ((if e.callsSystem io && io.result.isSome then w.wrote e conn else w).afterTurn env (e.sendTurn env.parser io))
  | recv (io : IoTurn) (n : Nat) {e : Exec σ} {conn : Nat} (hexec : w.exec = some e) (hfd : e.cli.fd = some conn)
      (hpc : e.pc = .recv) (hresult : io.result = some n) (hn : 0 < n ∧ n ≤ (w.conns conn).inbox.length) :
      ClientCase env w (.recv io)
        ((if e.callsSystem io then w.received conn n io.cancelled else w).afterTurn env
          (e.recvTurn env.parser io (w.recvBytes conn io)))
  | recvFailed (io : IoTurn) {e : Exec σ} {conn : Nat} (hexec : w.exec = some e) (hfd : e.cli.fd = some conn)
      (hpc : e.pc = .recv) (hresult : io.result = none) :
      ClientCase env w (.recv io) (w.afterTurn env (e.recvTurn env.parser io (w.recvBytes conn io)))
  | server (conn : Nat) (bytes : ByteString) (hconn : conn < w.nconns) :
      ClientCase env w (.server conn bytes)
        (w.updateConn conn fun c => { c with inbox := c.inbox ++ bytes.map fun b => (w.calls, b) })

theorem clientStep_cases {a : ClientAct} (h : clientStep env w a = some w') : ClientCase env w a w' := by
  cases a with
  | call req =>
    simp only [clientStep] at h
    split at h
    · cases h
    · next hexec =>
      cases h
      exact .call req hexec
  | start now =>
    simp only [clientStep] at h
    split at h
    · next e hexec =>
      split_ifs at h with hpc
      cases h
      exact .start now hexec hpc
    · cases h
  | connect failure now =>
    simp only [clientStep] at h
    split at h
    · next e hexec =>
      split_ifs at h with hpc hnone
      · cases h
        subst hnone
        exact .connected now hexec hpc.1
      · cases h
        obtain ⟨code, rfl⟩ := ne_none_iff_exists'.1 hnone
        exact .connectFailed code now hexec hpc.1 (by simpa using hpc.2)
    · cases h
  | send io =>
    simp only [clientStep] at h
    split at h
    · next e hexec =>
      split at h
      · next conn hfd =>
        by_cases hpc : e.pc = .send ∧ canSend e io
        · rw [if_pos hpc] at h
          cases h
          exact .send io hexec hfd hpc.1
        · rw [if_neg hpc] at h
          cases h
      · cases h
    · cases h
  | recv io =>
    simp only [clientStep] at h
    split at h
    · next e hexec =>
      split at h
      · next conn hfd =>
        by_cases hpc : e.pc = .recv ∧ w.canRecv conn io
        swap
        · rw [if_neg hpc] at h
          cases h
        rw [if_pos hpc] at h
        cases hresult : io.result with
        | none =>
          rw [hresult] at h
          cases h
          exact .recvFailed io hexec hfd hpc.1 hresult
        | some n =>
          rw [hresult] at h
          cases h
          have hcan := hpc.2
          simp only [canRecv, hresult, all_some, Bool.and_eq_true, decide_eq_true_eq] at hcan
          exact .recv io n hexec hfd hpc.1 hresult ⟨hcan.1.1, hcan.2⟩
      · cases h
    · cases h
  | server conn bytes =>
    simp only [clientStep] at h
    split_ifs at h with hconn
    cases h
    exact .server conn bytes hconn

/-- After a return, the only call that runs is that of a redirected request, which has not been started. -/
theorem returned_exec {code : Int} (h : (w.returned env e code).exec = some e') :
    ∃ req, e' = newExec (newClient env.parser) true req := by
  simp only [returned] at h
  split_ifs at h
  obtain ⟨req, -, rfl⟩ := map_eq_some_iff.1 h
  exact ⟨req, rfl⟩

/-! ## Fresh success -/

/-- Every success was fresh, and the running call awaits a fresh response. -/
structure FreshWorld (env : ClientEnv σ) (w : ClientWorld σ) : Prop where
  returns : w.freshSuccess
  exec : ∀ e, w.exec = some e → AwaitsFresh env.parser e

theorem freshWorld_afterTurn {turn : Turn σ} (hreturns : w.freshSuccess) (hturn : TurnFresh env.parser turn) :
    FreshWorld env (w.afterTurn env turn) := by
  cases turn with
  | next e =>
    refine ⟨hreturns, fun e' he => ?_⟩
    cases he
    exact hturn
  | return_ e code =>
    have hspoil : (w.spoil e code).returns = w.returns := by
      unfold spoil
      split
      · split_ifs <;> rfl
      · rfl
    refine ⟨fun r hr hcode => ?_, fun e' he => ?_⟩
    · simp only [afterTurn, returned, hspoil, mem_append, mem_singleton] at hr
      rcases hr with hr | rfl
      · exact hreturns r hr hcode
      · exact hturn hcode
    · obtain ⟨req, rfl⟩ := returned_exec he
      exact nofun

theorem recvBytes_ne_nil {io : IoTurn} {n conn : Nat} (hresult : io.result = some n)
    (hn : 0 < n ∧ n ≤ (w.conns conn).inbox.length) : w.recvBytes conn io ≠ [] := by
  unfold recvBytes
  rw [hresult]
  intro hnil
  have hlen := congrArg length hnil
  simp only [getD_some, length_map, length_take, length_nil] at hlen
  omega

theorem freshWorld_step (hw : FreshWorld env w) {a : ClientAct} (hok : w.failsVisibly env a)
    (hs : clientStep env w a = some w') : FreshWorld env w' := by
  cases clientStep_cases hs with
  | call req hexec => exact ⟨hw.returns, fun e he => (by cases he; exact nofun)⟩
  | start now hexec hpc => exact ⟨hw.returns, fun e he => (by cases he; exact awaitsFresh_startTurn _ now)⟩
  | connected now hexec hpc => exact freshWorld_afterTurn hw.returns (turnFresh_connectTurn _ _ rfl now)
  | connectFailed code now hexec hpc hcode =>
    exact freshWorld_afterTurn hw.returns (turnFresh_connectTurn _ _ (by simpa using hcode) now)
  | send io hexec hfd hpc =>
    simp only [failsVisibly, Bool.and_eq_true, Bool.not_eq_true', Bool.or_eq_true, decide_eq_true_eq] at hok
    obtain ⟨⟨hcancel, hcancelled⟩, herrno⟩ := hok
    apply freshWorld_afterTurn (by split_ifs <;> exact hw.returns)
    apply turnFresh_sendTurn hcancel hcancelled _ hpc
    intro hresult
    exact herrno.resolve_left (by simp [hresult])
  | @recv io n e conn hexec hfd hpc hresult hn =>
    simp only [failsVisibly, hexec, hfd, hresult, all_some, Bool.and_eq_true, Bool.not_eq_true',
      Bool.or_eq_true, isEmpty_eq_false_iff] at hok
    obtain ⟨⟨hcancel, hcancelled⟩, hstale⟩ := hok
    apply freshWorld_afterTurn (by split_ifs <;> exact hw.returns)
    apply turnFresh_recvTurn hcancel hcancelled hpc (hw.exec _ hexec)
    · intro _
      refine ⟨recvBytes_ne_nil hresult hn, fun hcomplete => ?_⟩
      exact hstale.resolve_left (by simp [hcomplete])
    · intro hnone
      rw [hresult] at hnone
      cases hnone
  | @recvFailed io e conn hexec hfd hpc hresult =>
    simp only [failsVisibly, hexec, hfd, hresult, all_some, Bool.and_eq_true, Bool.not_eq_true',
      Bool.or_eq_true, decide_eq_true_eq] at hok
    obtain ⟨⟨hcancel, hcancelled⟩, hstate, herrno⟩ := hok
    apply freshWorld_afterTurn hw.returns
    apply turnFresh_recvTurn hcancel hcancelled hpc (hw.exec _ hexec)
    · intro hsome
      exact absurd hresult hsome
    · intro _
      exact ⟨hstate, herrno⟩
  | server conn bytes hconn => exact ⟨hw.returns, hw.exec⟩

/-- If the turns show their failures, a call that returns zero has received a complete response after its
    request was sent. -/
theorem client_success_is_fresh (env : ClientEnv σ) (host : ByteString) (port : Nat) {w : ClientWorld σ}
    (h : Reachable (clientStep env) (fun w a => w.failsVisibly env a = true) (· = newClientWorld env host port) w) :
    w.freshSuccess := by
  have hinv : FreshWorld env w := by
    apply h.invariant
    · rintro w rfl
      exact ⟨fun r hr => (by cases hr), fun e he => (by cases he)⟩
    · exact fun _ _ _ hw hok hs => freshWorld_step hw hok hs
  exact hinv.returns

/-- A parser that knows one response. Its state is what is left of the text. -/
def oneResponse (text : ByteString) : ResponseParser ByteString where
  init := text
  execute _ rest data :=
    if data = [] then ⟨rest, [], 0⟩
    else if data.isPrefixOf rest then
      ⟨if data = rest then text else rest.drop data.length,
        (if rest = text then [.messageBegin] else []) ++ (if data = rest then [.messageComplete] else []), data.length⟩
    else ⟨rest, [], 0⟩
  isKeepAlive _ := true
  isRedirect _ := false
  location _ := []
  init_eof _ := by rw [if_pos rfl]

def emptyResponse : ByteString := ascii "HTTP/1.1 200 OK\r\nContent-Length: 0\r\n\r\n"

def emptyEnv : ClientEnv ByteString := ⟨oneResponse emptyResponse, fun req _ => req⟩

def plainRequest (https : Bool) : ClientRequest :=
  ⟨ascii "server", 8080, https, false, true, false, ascii "GET / HTTP/1.1\r\n\r\n", 0, 0, 0, 0⟩

def ioDone (n : Nat) : IoTurn := ⟨0, false, some n, 0, false, 0⟩

def ioFailed (errno : Int) : IoTurn := ⟨0, false, none, errno, false, 0⟩

def firstExchange : List ClientAct :=
  [.call (plainRequest false), .start 0, .connect none 0, .send (ioDone 18), .server 0 emptyResponse, .recv (ioDone 38)]

theorem client_success_is_fresh_first :
    ∃ w, runFrom (guarded (clientStep emptyEnv) (fun w a => w.failsVisibly emptyEnv a = true))
        (newClientWorld emptyEnv (ascii "server") 8080) firstExchange = some w ∧
      w.returns = [⟨0, emptyResponse, true⟩] ∧ w.freshSuccess := by
  exact exists_run (by decide +kernel) fun w hrun => ⟨of_run hrun (by decide +kernel),
    client_success_is_fresh emptyEnv (ascii "server") 8080
    (Reachable.runGuarded firstExchange (.start rfl) hrun)⟩

def closedBeforeResponse : List ClientAct :=
  firstExchange ++ [.call (plainRequest false), .start 0, .send (ioDone 18), .recv (ioFailed 104)]

/-- The second call returns zero without a byte of a response. -/
theorem closed_connection_returns_zero :
    ∃ w, Reachable (clientStep emptyEnv) Always (· = newClientWorld emptyEnv (ascii "server") 8080) w ∧
      w.returns = [⟨0, emptyResponse, true⟩, ⟨0, [], false⟩] ∧ ¬ w.freshSuccess := by
  refine exists_reached closedBeforeResponse rfl (by decide +kernel) fun w _ hrun =>
    ⟨of_run hrun (by decide +kernel), fun hfresh => ?_⟩
  have hlast := hfresh ⟨0, [], false⟩ (of_run hrun (by decide +kernel)) rfl
  exact hlast.1 rfl

end HvVerified.Http.Proofs
