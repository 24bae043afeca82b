import HvVerified.Http.Proofs.ClientReuseProofs

/-!
# Proofs: how many redirects a call follows

A call of `http_client_send` that does not follow redirects performs one exchange. If it does, every
response with a redirect status and a location is followed by another exchange, by a client of its own and
without a count: a server that always answers so is asked without end.
-/

namespace HvVerified.Http.Proofs

open Base Lib List ClientWorld Exec

variable {σ : Type} {P : ResponseParser σ} {e e' : Exec σ} {env : ClientEnv σ} {w w' : ClientWorld σ}
  {text : ByteString}

/-! ## The exchanges of a call -/

def DuringCall (_ : ClientWorld σ) (a : ClientAct) : Prop := ∀ req, a ≠ .call req

def InCall (env : ClientEnv σ) (req : ClientRequest) (w w' : ClientWorld σ) : Prop :=
  ∃ w₁, clientStep env w (.call req) = some w₁ ∧ Reachable (clientStep env) DuringCall (· = w₁) w'

def exchanges (w w' : ClientWorld σ) : List ExecReturn := w'.returns.drop w.returns.length

/-- A response that is complete after one read and that is followed. -/
structure RedirectResponse (P : ResponseParser σ) (skipBody : Bool) (text : ByteString) : Prop where
  length : 0 < text.length ∧ text.length ≤ 1024
  parsed : (P.execute skipBody P.init text).nparse = text.length
  complete : (P.execute skipBody P.init text).callbacks.getLast? = some .messageComplete
  isRedirect : P.isRedirect (P.execute skipBody P.init text).parser
  location : P.location (P.execute skipBody P.init text).parser ≠ []

/-! ## A call that does not follow redirects -/

def Turn.locals : Turn σ → Exec σ
  | .next e => e
  | .return_ e _ => e

theorem req_retry : (Turn.locals e.retryOrDisconnect).req = e.req := by
  unfold retryOrDisconnect
  split_ifs <;> rfl

theorem req_succeed : (Turn.locals (e.succeed P)).req = e.req := by
  unfold succeed
  split_ifs <;> rfl

theorem req_connectTurn (conn : Nat) (failure : Option Int) (now : Int) :
    (Turn.locals (e.connectTurn P conn failure now)).req = e.req := by
  unfold connectTurn
  dsimp only
  split
  · rfl
  · split
    · rfl
    · next e' hcheck =>
      obtain ⟨t, rfl⟩ := checkTimeout_eq hcheck
      exact (submit_fields _).1

theorem req_sendTurn (io : IoTurn) : (Turn.locals (e.sendTurn P io)).req = e.req := by
  unfold sendTurn
  split
  · rfl
  · next e' hcheck =>
    obtain ⟨t, rfl⟩ := checkTimeout_eq hcheck
    split_ifs
    · rfl
    · split
      · unfold sentData
        dsimp only
        split_ifs <;> rfl
      · split
        · rfl
        · next e'' hcheck' =>
          obtain ⟨t', rfl⟩ := checkTimeout_eq hcheck'
          unfold sendFailed
          split_ifs
          · rfl
          · exact req_retry

theorem req_recvTurn (io : IoTurn) (data : ByteString) : (Turn.locals (e.recvTurn P io data)).req = e.req := by
  unfold recvTurn
  split
  · rfl
  · next e' hcheck =>
    obtain ⟨t, rfl⟩ := checkTimeout_eq hcheck
    split_ifs
    · rfl
    · split
      · unfold recvData
        split_ifs
        · rfl
        · exact req_succeed
        · rfl
      · split
        · rfl
        · next e'' hcheck' =>
          obtain ⟨t', rfl⟩ := checkTimeout_eq hcheck'
          unfold recvFailed
          dsimp only
          split_ifs
          · exact req_succeed
          · rfl
          · rfl
          · exact req_retry

theorem returns_spoil (w : ClientWorld σ) (e : Exec σ) (code : Int) : (w.spoil e code).returns = w.returns := by
  unfold spoil
  split
  · split_ifs <;> rfl
  · rfl

def AtMostOne (n : Nat) (w : ClientWorld σ) : Prop :=
  match w.exec with
  | some e => e.req.redirect = false ∧ w.returns.length = n
  | none => w.returns.length ≤ n + 1

theorem atMostOne_afterTurn {n : Nat} {turn : Turn σ} (hreq : (Turn.locals turn).req.redirect = false)
    (hreturns : w.returns.length = n) : AtMostOne n (w.afterTurn env turn) := by
  cases turn with
  | next e => exact ⟨hreq, hreturns⟩
  | return_ e code =>
    have hstays : redirected env e = none := by
      have hreq : e.req.redirect = false := hreq
      simp [redirected, hreq]
    have hexec : (w.returned env e code).exec = none := by
      simp [returned, hstays]
    unfold AtMostOne
    rw [show (w.afterTurn env (.return_ e code)).exec = none from hexec]
    show ((w.spoil e code).returns ++ _).length ≤ n + 1
    rw [returns_spoil, length_append, hreturns]
    rfl

theorem atMostOne_step {n : Nat} (h : AtMostOne n w) {a : ClientAct} (hok : DuringCall w a)
    (hs : clientStep env w a = some w') : AtMostOne n w' := by
  have hrunning : ∀ {e}, w.exec = some e → e.req.redirect = false ∧ w.returns.length = n := by
    intro e hexec
    unfold AtMostOne at h
    rw [hexec] at h
    exact h
  cases clientStep_cases hs with
  | call req hexec => exact absurd rfl (hok req)
  | @start now e hexec hpc =>
    obtain ⟨hreq, hreturns⟩ := hrunning hexec
    have hsame := (@startTurn_cases σ env.parser e now).1
    exact ⟨(congrArg ClientRequest.redirect hsame).trans hreq, hreturns⟩
  | @connected now e hexec hpc =>
    obtain ⟨hreq, hreturns⟩ := hrunning hexec
    exact atMostOne_afterTurn (by rwa [req_connectTurn]) hreturns
  | @connectFailed code now e hexec hpc hcode =>
    obtain ⟨hreq, hreturns⟩ := hrunning hexec
    exact atMostOne_afterTurn (by rwa [req_connectTurn]) hreturns
  | @send io e conn hexec hfd hpc =>
    obtain ⟨hreq, hreturns⟩ := hrunning hexec
    refine atMostOne_afterTurn (by rwa [req_sendTurn]) ?_
    split_ifs <;> exact hreturns
  | @recv io k e conn hexec hfd hpc hresult hk =>
    obtain ⟨hreq, hreturns⟩ := hrunning hexec
    refine atMostOne_afterTurn (by rwa [req_recvTurn]) ?_
    split_ifs <;> exact hreturns
  | @recvFailed io e conn hexec hfd hpc hresult =>
    obtain ⟨hreq, hreturns⟩ := hrunning hexec
    exact atMostOne_afterTurn (by rwa [req_recvTurn]) hreturns
  | server conn bytes hconn => exact h

theorem returns_call {req : ClientRequest} (hs : clientStep env w (.call req) = some w') :
    w'.returns = w.returns ∧ w'.exec = some (newExec w.cli false req) := by
  cases clientStep_cases hs with
  | call req hexec => exact ⟨rfl, rfl⟩

theorem exchanges_le_one {req : ClientRequest} (hredirect : req.redirect = false) (h : InCall env req w w') :
    (exchanges w w').length ≤ 1 := by
  obtain ⟨w₁, hcall, hrun⟩ := h
  obtain ⟨hreturns, hexec⟩ := returns_call hcall
  have hinv : AtMostOne w.returns.length w' := by
    apply hrun.invariant
    · rintro w rfl
      unfold AtMostOne
      rw [hexec, hreturns]
      exact ⟨hredirect, rfl⟩
    · exact fun _ _ _ hw hok hs => atMostOne_step hw hok hs
  unfold exchanges
  rw [length_drop]
  unfold AtMostOne at hinv
  split at hinv <;> omega

/-! ## A server that always redirects -/

section Exchange

variable {init : ClientWorld σ → Prop} {cli : HttpClient σ} {temporary : Bool} {req : ClientRequest} {conn : Nat}

theorem checkTimeout_zero (h : e.startTime = 0) : ∃ t, e.checkTimeout 0 = some { e with leftTime := t } := by
  unfold checkTimeout
  dsimp only
  split_ifs with hpos hout
  · omega
  · exact ⟨_, rfl⟩
  · exact ⟨e.leftTime, rfl⟩

structure Awaits (P : ResponseParser σ) (request : ClientRequest) (conn : Nat) (e : Exec σ) : Prop where
  pc : e.pc = .recv
  fd : e.cli.fd = some conn
  req : e.req = request
  startTime : e.startTime = 0
  skipBody : e.cli.parser.skipBody = request.isHead
  vendored : e.cli.parser.vendored = P.init
  received : e.received = []

section

variable (h : Reachable (clientStep env) DuringCall init w)

include h

theorem reach_connect (hexec : w.exec = some (newExec cli temporary req)) (hfd : cli.fd = none) :
    ∃ w' e, Reachable (clientStep env) DuringCall init w' ∧ w'.returns = w.returns ∧ w'.exec = some e ∧
      e.pc = .connect ∧ e.req = req ∧ e.startTime = 0 := by
  have hs : clientStep env w (.start 0) =
      some { w with exec := some ((newExec cli temporary req).startTurn env.parser 0) } := by
    simp only [clientStep, hexec]
    exact if_pos rfl
  refine ⟨_, _, .step h (fun req => by simp) hs, rfl, rfl, ?_⟩
  have hnew : ¬ reuses { newExec cli temporary req with
      retryCount := (newExec cli temporary req).retries, startTime := 0, leftTime := infinite } := by
    simp [reuses, newExec, hfd]
  unfold startTurn
  rw [if_neg hnew]
  exact ⟨rfl, rfl, rfl⟩

theorem reach_submit (hexec : w.exec = some e) (hpc : e.pc = .connect) (hstart : e.startTime = 0) :
    ∃ (w' : ClientWorld σ) (e' : Exec σ), Reachable (clientStep env) DuringCall init w' ∧ w'.returns = w.returns ∧
      w'.exec = some (e'.submit env.parser) ∧ e'.req = e.req ∧ e'.startTime = 0 ∧ e'.cli.fd = some w.nconns ∧
      w'.nconns = w.nconns + 1 ∧ (w'.conns w.nconns).inbox = [] := by
  obtain ⟨t, ht⟩ := @checkTimeout_zero σ { e with
    cli := { e.cli.close with fd := some w.nconns, ssl := e.req.https, keepaliveRequests := 0 }
    used := some w.nconns } hstart
  have hturn : e.connectTurn env.parser w.nconns none 0 = .next (submit env.parser { e with
      cli := { e.cli.close with fd := some w.nconns, ssl := e.req.https, keepaliveRequests := 0 }
      used := some w.nconns
      leftTime := t }) := by
    unfold connectTurn
    dsimp only
    rw [ht]
  have hs : clientStep env w (.connect none 0) = some (afterTurn env
      { w.updateConn w.nconns (fun _ => ⟨e.req.https, [], false⟩) with nconns := w.nconns + 1 }
      (e.connectTurn env.parser w.nconns none 0)) := by
    simp only [clientStep, hexec]
    exact (if_pos ⟨hpc, rfl⟩).trans (if_pos trivial)
  rw [hturn] at hs
  refine ⟨_, _, .step h (fun req => by simp) hs, rfl, rfl, rfl, hstart, rfl, rfl, ?_⟩
  exact congrArg Conn.inbox (if_pos rfl)

theorem reach_awaits (hexec : w.exec = some (e.submit env.parser))
    (hstart : e.startTime = 0) (hfd : e.cli.fd = some conn) :
    ∃ w' e', Reachable (clientStep env) DuringCall init w' ∧ w'.returns = w.returns ∧ w'.exec = some e' ∧
      w'.nconns = w.nconns ∧ w'.conns = w.conns ∧ Awaits env.parser e.req conn e' := by
  by_cases htext : e.req.text = []
  · unfold submit at hexec
    rw [if_pos htext] at hexec
    exact ⟨w, _, h, rfl, hexec, rfl, rfl, rfl, hfd, rfl, hstart, rfl, rfl, rfl⟩
  · unfold submit at hexec
    rw [if_neg htext] at hexec
    generalize hsubmit : ({ e with
      cli := { e.cli with parser := e.cli.parser.submitRequest e.req.isHead }
      data := e.req.text
      pc := .send } : Exec σ) = e₁ at hexec
    obtain ⟨t, ht⟩ := @checkTimeout_zero σ e₁ (by rw [← hsubmit]; exact hstart)
    have hdata : e₁.data = e.req.text := by rw [← hsubmit]
    have hturn : e₁.sendTurn env.parser (ioDone e.req.text.length) =
        .next (awaitResponse env.parser { e₁ with leftTime := t, data := [] }) := by
      unfold sendTurn
      rw [show (ioDone e.req.text.length).now = 0 from rfl, ht]
      simp [ioDone, sentData, hdata]
    have hcan : canSend e₁ (ioDone e.req.text.length) := by
      simp [canSend, ioDone, hdata, length_pos_iff, htext]
    have hpc : e₁.pc = .send := by rw [← hsubmit]
    have hfd₁ : e₁.cli.fd = some conn := by rw [← hsubmit]; exact hfd
    have hcalls : (e₁.callsSystem (ioDone e.req.text.length) && (ioDone e.req.text.length).result.isSome) := by
      simp [callsSystem, ioDone, ht]
    have hs : clientStep env w (.send (ioDone e.req.text.length)) =
        some ((w.wrote e₁ conn).afterTurn env (e₁.sendTurn env.parser (ioDone e.req.text.length))) := by
      simp only [clientStep, hexec, hfd₁]
      rw [if_pos ⟨hpc, hcan⟩, if_pos hcalls]
    rw [hturn] at hs
    refine ⟨_, _, .step h (fun req => by simp) hs, rfl, rfl, rfl, rfl, ?_⟩
    subst hsubmit
    exact ⟨rfl, hfd, rfl, hstart, rfl, rfl, rfl⟩

end

theorem succeed_eq (e : Exec σ) : ∃ cli, cli.parser = e.cli.parser ∧ e.succeed P = .return_ { e with cli } 0 := by
  unfold succeed
  split_ifs
  · exact ⟨{ e.cli with keepaliveRequests := e.cli.keepaliveRequests + 1 }, rfl, rfl⟩
  · exact ⟨e.cli.close, rfl, rfl⟩

theorem recvTurn_redirect (hawaits : Awaits P req conn e) (htext : RedirectResponse P req.isHead text) :
    ∃ e', e.recvTurn P (ioDone text.length) text = .return_ e' 0 ∧ e'.req = req ∧ e'.received = text ∧
      e'.completed ∧ e'.cli.parser.vendored = (P.execute req.isHead P.init text).parser := by
  obtain ⟨t, ht⟩ := checkTimeout_zero hawaits.startTime
  have hexecute : P.execute e.cli.parser.skipBody e.cli.parser.vendored text = P.execute req.isHead P.init text := by
    rw [hawaits.skipBody, hawaits.vendored]
  have hparsed : ¬ nparse P { e with leftTime := t } text ≠ text.length := by
    unfold nparse
    rw [hexecute, htext.parsed]
    exact fun h => h rfl
  have hcompletes : e.cli.parser.completes P text := by
    unfold ClientParser.completes
    rw [hexecute]
    exact decide_eq_true htext.complete
  have hcomplete : (feed P { e with leftTime := t } text).cli.parser.isComplete :=
    (isComplete_feed e.cli.parser text).2 (.inl hcompletes)
  have hturn : e.recvTurn P (ioDone text.length) text = recvData P { e with leftTime := t } text := by
    unfold recvTurn
    rw [show (ioDone text.length).now = 0 from rfl, ht]
    rfl
  obtain ⟨cli, hcli, hsucceed⟩ := @succeed_eq σ P (feed P { e with leftTime := t } text)
  refine ⟨{ feed P { e with leftTime := t } text with cli }, ?_, hawaits.req, ?_, ?_, ?_⟩
  · rw [hturn, ← hsucceed]
    unfold recvData
    rw [if_neg hparsed, if_pos hcomplete]
  · show e.received ++ text = text
    rw [hawaits.received, nil_append]
  · exact (completed_feed { e with leftTime := t } text).2 (.inl hcompletes)
  · rw [hcli, ← hexecute]
    rfl

theorem reach_redirected (h : Reachable (clientStep env) DuringCall init w) (hexec : w.exec = some e)
    (hconn : conn < w.nconns) (hinbox : (w.conns conn).inbox = []) (hawaits : Awaits env.parser req conn e)
    (hredirect : req.redirect) (htext : RedirectResponse env.parser req.isHead text) :
    ∃ w' location, Reachable (clientStep env) DuringCall init w' ∧ w'.returns = w.returns ++ [⟨0, text, true⟩] ∧
      w'.exec = some (newExec (newClient env.parser) true (env.redirectTo req location)) := by
  have hs : clientStep env w (.server conn text) = some (w.updateConn conn fun c =>
      { c with inbox := c.inbox ++ text.map fun b => (w.calls, b) }) := if_pos hconn
  generalize hw₁ : w.updateConn conn (fun c => { c with inbox := c.inbox ++ text.map fun b => (w.calls, b) }) = w₁ at hs
  have hinbox₁ : (w₁.conns conn).inbox = text.map fun b => (w.calls, b) := by
    rw [← hw₁]
    simp [updateConn, hinbox]
  have hexec₁ : w₁.exec = some e := by rw [← hw₁]; exact hexec
  have hreturns₁ : w₁.returns = w.returns := by rw [← hw₁]; rfl
  have hbytes : w₁.recvBytes conn (ioDone text.length) = text := by
    unfold recvBytes
    rw [hinbox₁]
    simp [ioDone, Function.comp_def]
  have hcan : w₁.canRecv conn (ioDone text.length) := by
    simp [canRecv, ioDone, hinbox₁, htext.length]
  obtain ⟨e', hturn, hreq, hreceived, hcompleted, hvendored⟩ := recvTurn_redirect hawaits htext
  have hlocation : redirected env e' = some (env.redirectTo req (env.parser.location e'.cli.parser.vendored)) := by
    unfold redirected
    rw [hreq, if_pos]
    simp [hredirect, hvendored, htext.isRedirect, htext.location]
  have hs' : clientStep env w₁ (.recv (ioDone text.length)) =
      some ((if e.callsSystem (ioDone text.length) then w₁.received conn text.length false else w₁).returned env e' 0) := by
    simp only [clientStep, hexec₁, hawaits.fd]
    rw [if_pos ⟨hawaits.pc, hcan⟩, hbytes, hturn]
    rfl
  refine ⟨_, env.parser.location e'.cli.parser.vendored, .step (.step h (fun req => by simp) hs) (fun req => by simp) hs',
    ?_, ?_⟩
  · have hsame : (if e.callsSystem (ioDone text.length) then w₁.received conn text.length false else w₁).returns =
        w.returns := by
      split_ifs <;> exact hreturns₁
    unfold returned
    dsimp only
    rw [returns_spoil, hsame, hreceived, hcompleted]
  · unfold returned
    rw [if_pos rfl, hlocation]
    rfl

/-- A redirected exchange ends at the start of another one. -/
theorem reach_exchange (h : Reachable (clientStep env) DuringCall init w)
    (hexec : w.exec = some (newExec cli temporary req)) (hfd : cli.fd = none) (hredirect : req.redirect)
    (htext : RedirectResponse env.parser req.isHead text) :
    ∃ w' location, Reachable (clientStep env) DuringCall init w' ∧ w'.returns = w.returns ++ [⟨0, text, true⟩] ∧
      w'.exec = some (newExec (newClient env.parser) true (env.redirectTo req location)) := by
  obtain ⟨w₁, e₁, h₁, hreturns₁, hexec₁, hpc, rfl, hstart₁⟩ := reach_connect h hexec hfd
  obtain ⟨w₂, e₂, h₂, hreturns₂, hexec₂, hreq, hstart₂, hfd₂, hnconns, hinbox⟩ := reach_submit h₁ hexec₁ hpc hstart₁
  obtain ⟨w₃, e₃, h₃, hreturns₃, hexec₃, hnconns₃, hconns, hawaits⟩ := reach_awaits h₂ hexec₂ hstart₂ hfd₂
  rw [hreq] at hawaits
  obtain ⟨w₄, location, h₄, hreturns₄, hexec₄⟩ := reach_redirected h₃ hexec₃ (by omega) (by rw [hconns, hinbox]) hawaits
    hredirect htext
  exact ⟨w₄, location, h₄, by rw [hreturns₄, hreturns₃, hreturns₂, hreturns₁], hexec₄⟩

end Exchange

section

variable (hkeeps : ∀ req location, (env.redirectTo req location).redirect = req.redirect)
  (hserver : ∀ skipBody, ∃ text, RedirectResponse env.parser skipBody text) {req : ClientRequest}
  (hredirect : req.redirect)

include hkeeps hserver hredirect

theorem reach_exchanges (hexec : w.exec = some (newExec w.cli false req)) (hfd : w.cli.fd = none) :
    ∀ n, ∃ w' rs, Reachable (clientStep env) DuringCall (· = w) w' ∧ w'.returns = w.returns ++ rs ∧ rs.length = n ∧
      (∀ r ∈ rs, r.code = 0 ∧ r.completed) ∧
      ∃ cli temporary req', w'.exec = some (newExec cli temporary req') ∧ cli.fd = none ∧ req'.redirect := by
  intro n
  induction n with
  | zero =>
    refine ⟨w, [], .start rfl, (append_nil _).symm, rfl, fun r hr => absurd hr not_mem_nil, ?_⟩
    exact ⟨w.cli, false, req, hexec, hfd, hredirect⟩
  | succ n ih =>
    obtain ⟨w₁, rs, h₁, hreturns₁, hlen, hall, cli, temporary, req', hexec₁, hfd₁, hredirect₁⟩ := ih
    obtain ⟨text, htext⟩ := hserver req'.isHead
    obtain ⟨w₂, location, h₂, hreturns₂, hexec₂⟩ := reach_exchange h₁ hexec₁ hfd₁ hredirect₁ htext
    refine ⟨w₂, rs ++ [⟨0, text, true⟩], h₂, ?_, ?_, ?_, _, _, _, hexec₂, rfl, (hkeeps _ _).trans hredirect₁⟩
    · rw [hreturns₂, hreturns₁, append_assoc]
    · rw [length_append, hlen]
      rfl
    · exact forall_mem_append.2 ⟨hall, forall_mem_singleton.2 ⟨rfl, rfl⟩⟩

theorem exchanges_unbounded (host : ByteString) (port bound : Nat) :
    ∃ w', InCall env req (newClientWorld env host port) w' ∧
      (∀ r ∈ exchanges (newClientWorld env host port) w', r.code = 0 ∧ r.completed) ∧
      bound < (exchanges (newClientWorld env host port) w').length := by
  generalize hw₁ : { newClientWorld env host port with
    calls := 1, exec := some (newExec (newClientWorld env host port).cli false req) } = w₁
  have hcall : clientStep env (newClientWorld env host port) (.call req) = some w₁ := congrArg some hw₁
  obtain ⟨w', rs, hrun, hreturns, hlen, hdone, -⟩ :=
    @reach_exchanges σ env w₁ hkeeps hserver req hredirect (by rw [← hw₁]) (by rw [← hw₁]; rfl) (bound + 1)
  have hrs : exchanges (newClientWorld env host port) w' = rs := by
    unfold exchanges
    rw [hreturns, ← hw₁]
    rfl
  refine ⟨w', ⟨w₁, hcall, hrun⟩, ?_, ?_⟩
  · rwa [hrs]
  · rw [hrs, hlen]
    exact Nat.lt_succ_self bound

end

/-- The exchanges of a call are bounded iff the request does not follow redirects: then there is at most
    one, and else there are more than any number. -/
theorem redirects_bounded_iff (env : ClientEnv σ)
    (hkeeps : ∀ req location, (env.redirectTo req location).redirect = req.redirect)
    (hserver : ∀ skipBody, ∃ text, RedirectResponse env.parser skipBody text) (req : ClientRequest) {bound : Nat}
    (hbound : 0 < bound) :
    (∀ host port w w', Reachable (clientStep env) Always (· = newClientWorld env host port) w →
      InCall env req w w' → (∀ r ∈ exchanges w w', r.code = 0 ∧ r.completed = true) →
      (exchanges w w').length ≤ bound) ↔ req.redirect = false := by
  constructor
  · intro hall
    by_contra hfollows
    have hredirect : req.redirect := by simpa using hfollows
    obtain ⟨w', hcall, hdone, hmore⟩ := exchanges_unbounded hkeeps hserver hredirect [] 0 bound
    exact absurd (hall [] 0 _ w' (.start rfl) hcall hdone) (Nat.not_le.2 hmore)
  · intro hredirect host port w w' _ hcall _
    exact (exchanges_le_one hredirect hcall).trans hbound

def movedResponse : ByteString := ascii "HTTP/1.1 302 Found\r\nLocation: /\r\nContent-Length: 0\r\n\r\n"

def movedEnv : ClientEnv ByteString :=
  ⟨{ oneResponse movedResponse with isRedirect := fun _ => true, location := fun _ => ascii "/" }, fun req _ => req⟩

theorem redirectResponse_moved (skipBody : Bool) : RedirectResponse movedEnv.parser skipBody movedResponse where
  length := by decide +kernel
  parsed := by cases skipBody <;> decide +kernel
  complete := by cases skipBody <;> decide +kernel
  isRedirect := rfl
  location := by
    show ascii "/" ≠ []
    decide

def movedExchange : List ClientAct :=
  [.start 0, .connect none 0, .send (ioDone 18), .server 0 movedResponse, .recv (ioDone 54)]

/-- The redirect is not followed. -/
theorem redirects_bounded_once :
    ∃ w', InCall movedEnv (plainRequest false) (newClientWorld movedEnv (ascii "server") 8080) w' ∧
      exchanges (newClientWorld movedEnv (ascii "server") 8080) w' = [⟨0, movedResponse, true⟩] ∧
      (exchanges (newClientWorld movedEnv (ascii "server") 8080) w').length ≤ 1 := by
  generalize hw : newClientWorld movedEnv (ascii "server") 8080 = w
  obtain ⟨w', hrun, hreturns⟩ := Option.map_eq_some_iff.1
    (show (runFrom (clientStep movedEnv) { w with calls := 1, exec := some (newExec w.cli false (plainRequest false)) }
        movedExchange).map returns = some [⟨0, movedResponse, true⟩] by rw [← hw]; decide +kernel)
  have hduring : ∀ a ∈ movedExchange, ∀ w : ClientWorld ByteString, DuringCall w a := by
    simp [movedExchange, DuringCall]
  have hcall : InCall movedEnv (plainRequest false) w w' := by
    refine ⟨_, ?_, Reachable.runAdmitted movedExchange (fun a ha w _ hs => ⟨hduring a ha w, hs⟩) (.start rfl) hrun⟩
    rw [← hw]
    rfl
  have hone : exchanges w w' = [⟨0, movedResponse, true⟩] := by
    unfold exchanges
    rw [hreturns, ← hw]
    rfl
  refine ⟨w', hcall, hone, ?_⟩
  refine (redirects_bounded_iff movedEnv (fun _ _ => rfl)
    (fun skipBody => ⟨movedResponse, redirectResponse_moved skipBody⟩) (plainRequest false) Nat.one_pos).2 rfl
    (ascii "server") 8080 w w' (.start hw.symm) hcall ?_
  rw [hone]
  exact forall_mem_singleton.2 ⟨rfl, rfl⟩

def followingRequest : ClientRequest := { plainRequest false with redirect := true }

/-- The server always answers with the redirect. -/
theorem redirects_never_end : followingRequest.redirect = true ∧ ∀ bound, ∃ w',
    InCall movedEnv followingRequest (newClientWorld movedEnv (ascii "server") 8080) w' ∧
      (∀ r ∈ exchanges (newClientWorld movedEnv (ascii "server") 8080) w', r.code = 0 ∧ r.completed = true) ∧
      bound < (exchanges (newClientWorld movedEnv (ascii "server") 8080) w').length :=
  ⟨rfl, exchanges_unbounded (fun _ _ => rfl) (fun skipBody => ⟨movedResponse, redirectResponse_moved skipBody⟩) rfl
    (ascii "server") 8080⟩

end HvVerified.Http.Proofs
