import HvVerified.Http.Proofs.HttpClientProofs

/-!
# Connections of the synchronous client

A turn of `http_client_exec` keeps the connection of the client or closes it. If the server is silent
between the calls and its responses are parsed to their end, a connection that is kept carries nothing of
an earlier exchange.
-/

namespace HvVerified.Http.Proofs

open Base Lib List Option ClientWorld

variable {io : IoTurn} {code now : Int} {data : ByteString} {n conn k : Nat} {cancelled : Bool} {σ : Type}
  {P : ResponseParser σ} {e e' : Exec σ} {env : ClientEnv σ} {w w' : ClientWorld σ}

/-! ## Turns -/

/-- A turn keeps the connection of the client, or closes it. -/
def KeepsConn (e : Exec σ) : Turn σ → Prop
  | .next e' => e'.req = e.req ∧ e'.temporary = e.temporary ∧ e'.used = e.used ∧ e'.cli.fd = e.cli.fd ∧
      e'.cli.ssl = e.cli.ssl
  | .return_ e' _ => e'.temporary = e.temporary ∧ e'.used = e.used ∧
      (e'.cli.fd = none ∨ (e'.cli.fd = e.cli.fd ∧ e'.cli.ssl = e.cli.ssl))

theorem keepsConn_disconnect : KeepsConn e e.disconnect := ⟨rfl, rfl, .inl rfl⟩

theorem keepsConn_timedOut : KeepsConn e e.timedOut := ⟨rfl, rfl, .inl rfl⟩

theorem keepsConn_retry : KeepsConn e e.retryOrDisconnect := by
  unfold Exec.retryOrDisconnect
  split_ifs
  · exact ⟨rfl, rfl, rfl, rfl, rfl⟩
  · exact keepsConn_disconnect

theorem keepsConn_succeed : KeepsConn e (e.succeed P) := by
  unfold Exec.succeed
  split_ifs
  · exact ⟨rfl, rfl, .inr ⟨rfl, rfl⟩⟩
  · exact ⟨rfl, rfl, .inl rfl⟩

theorem keepsConn_sendTurn (io : IoTurn) : KeepsConn e (e.sendTurn P io) := by
  unfold Exec.sendTurn
  split
  · exact keepsConn_timedOut
  · next e' hcheck =>
    obtain ⟨t, rfl⟩ := checkTimeout_eq hcheck
    split_ifs
    · exact keepsConn_disconnect
    · split
      · unfold Exec.sentData
        dsimp only
        split_ifs
        · exact ⟨rfl, rfl, rfl, rfl, rfl⟩
        · exact ⟨rfl, rfl, rfl, rfl, rfl⟩
      · split
        · exact keepsConn_timedOut
        · next e'' hcheck' =>
          obtain ⟨t', rfl⟩ := checkTimeout_eq hcheck'
          unfold Exec.sendFailed
          split_ifs
          · exact ⟨rfl, rfl, rfl, rfl, rfl⟩
          · exact keepsConn_retry

theorem sendTurn_return (h : e.sendTurn P io = .return_ e' code) : e'.cli.fd = none := by
  have hretry : ∀ e₁ : Exec σ, e₁.retryOrDisconnect = .return_ e' code → e'.cli.fd = none := by
    intro e₁ h₁
    unfold Exec.retryOrDisconnect at h₁
    split_ifs at h₁
    cases h₁
    rfl
  unfold Exec.sendTurn at h
  split at h
  · cases h
    rfl
  · split_ifs at h
    · cases h
      rfl
    · split at h
      · cases h
      · split at h
        · cases h
          rfl
        · unfold Exec.sendFailed at h
          split_ifs at h
          exact hretry _ h

theorem keepsConn_recvTurn (io : IoTurn) (data : ByteString) : KeepsConn e (e.recvTurn P io data) := by
  unfold Exec.recvTurn
  split
  · exact keepsConn_timedOut
  · next e' hcheck =>
    obtain ⟨t, rfl⟩ := checkTimeout_eq hcheck
    split_ifs
    · exact keepsConn_disconnect
    · split
      · unfold Exec.recvData
        split_ifs
        · exact ⟨rfl, rfl, .inr ⟨rfl, rfl⟩⟩
        · exact keepsConn_succeed
        · exact ⟨rfl, rfl, rfl, rfl, rfl⟩
      · split
        · exact keepsConn_timedOut
        · next e'' hcheck' =>
          obtain ⟨t', rfl⟩ := checkTimeout_eq hcheck'
          unfold Exec.recvFailed
          dsimp only
          split_ifs
          · exact keepsConn_succeed
          · exact ⟨rfl, rfl, rfl, rfl, rfl⟩
          · exact keepsConn_disconnect
          · exact keepsConn_retry

theorem succeed_return (h : e.succeed P = .return_ e' code) :
    e'.cli.fd = none ∨ (code = 0 ∧ e'.completed = e.completed ∧ e.req.keepAlive ∧
      P.isKeepAlive e.cli.parser.vendored) := by
  unfold Exec.succeed at h
  split_ifs at h with hkeep
  · cases h
    rw [Bool.and_eq_true] at hkeep
    exact .inr ⟨rfl, rfl, hkeep⟩
  · cases h
    exact .inl rfl

/-- If `recv` fails, and is not interrupted while the parser is at the end of an earlier response, a return
    closes the connection. -/
theorem recvTurn_return_failed (hresult : io.result = none)
    (hintr : e.cli.parser.isComplete → io.errno ≠ eintr) (h : e.recvTurn P io data = .return_ e' code) :
    e'.cli.fd = none := by
  unfold Exec.recvTurn at h
  split at h
  · cases h
    rfl
  · next e₁ hcheck =>
    obtain ⟨t, rfl⟩ := checkTimeout_eq hcheck
    split_ifs at h
    · cases h
      rfl
    · rw [hresult] at h
      dsimp only at h
      split at h
      · cases h
        rfl
      · next e₂ hcheck' =>
        obtain ⟨t', rfl⟩ := checkTimeout_eq hcheck'
        unfold Exec.recvFailed at h
        dsimp only at h
        split_ifs at h with herrno hcomplete
        · exact absurd herrno (hintr hcomplete)
        · cases h
          rfl
        · unfold Exec.retryOrDisconnect at h
          split_ifs at h
          cases h
          rfl

/-- If the bytes are parsed, and call something in case the parser is at the end of an earlier response, the
    connection is closed or the response is complete. -/
theorem recvTurn_return_data (hresult : io.result = some n) (hparse : e.nparse P data = data.length)
    (hstale : e.cli.parser.isComplete →
      (P.execute e.cli.parser.skipBody e.cli.parser.vendored data).callbacks ≠ [])
    (h : e.recvTurn P io data = .return_ e' code) : e'.cli.fd = none ∨ (code = 0 ∧ e'.completed ∧ e.callsSystem io ∧
      (e.cli.parser.feed P data).isComplete ∧ e.req.keepAlive ∧
      P.isKeepAlive (e.cli.parser.feed P data).vendored) := by
  unfold Exec.recvTurn at h
  split at h
  · cases h
    exact .inl rfl
  · next e₁ hcheck =>
    have hcalls : io.cancel = false → e.callsSystem io := fun hcancel => by
      simp [Exec.callsSystem, hcheck, hcancel]
    obtain ⟨t, rfl⟩ := checkTimeout_eq hcheck
    split_ifs at h with hcancel
    · cases h
      exact .inl rfl
    · simp only [Bool.or_eq_true, not_or, Bool.not_eq_true] at hcancel
      rw [hresult] at h
      unfold Exec.recvData at h
      split_ifs at h with hne hcomplete
      · exact absurd hparse hne
      have hcompletes : e.cli.parser.completes P data := by
        rcases (isComplete_feed e.cli.parser data).1 hcomplete with hc | ⟨hc, hnil⟩
        · exact hc
        · exact absurd hnil (hstale hc)
      rcases succeed_return h with hnone | ⟨hcode, hcompleted, hkeep⟩
      · exact .inl hnone
      · refine .inr ⟨hcode, ?_, hcalls hcancel.1, hcomplete, hkeep⟩
        rw [hcompleted]
        exact (completed_feed _ data).2 (.inl hcompletes)

theorem submit_fields (e : Exec σ) :
    (e.submit P).req = e.req ∧ (e.submit P).temporary = e.temporary ∧ (e.submit P).used = e.used ∧
      (e.submit P).cli.fd = e.cli.fd ∧ (e.submit P).cli.ssl = e.cli.ssl := by
  unfold Exec.submit
  dsimp only
  split_ifs
  · exact ⟨rfl, rfl, rfl, rfl, rfl⟩
  · exact ⟨rfl, rfl, rfl, rfl, rfl⟩

theorem startTurn_cases (e : Exec σ) (now : Int) :
    (e.startTurn P now).req = e.req ∧ (e.startTurn P now).temporary = e.temporary ∧
      (e.startTurn P now).cli.fd = e.cli.fd ∧ (e.startTurn P now).cli.ssl = e.cli.ssl ∧
      ((e.reuses ∧ (e.startTurn P now).used = e.cli.fd) ∨
        ((e.startTurn P now).pc = .connect ∧ (e.startTurn P now).used = e.used)) := by
  unfold Exec.startTurn
  dsimp only
  split_ifs with hreuses
  · obtain ⟨hreq, htemp, hused, hfd, hssl⟩ := @submit_fields σ P { e with
      retryCount := e.retries, startTime := now, leftTime := infinite, used := e.cli.fd }
    exact ⟨hreq, htemp, hfd, hssl, .inl ⟨hreuses, hused⟩⟩
  · exact ⟨rfl, rfl, rfl, rfl, .inr ⟨rfl, rfl⟩⟩

def MakesConn (e : Exec σ) (conn : Nat) : Turn σ → Prop
  | .next e' => e'.req = e.req ∧ e'.temporary = e.temporary ∧ e'.used = some conn ∧ e'.cli.fd = some conn ∧
      e'.cli.ssl = e.req.https
  | .return_ e' _ => e'.temporary = e.temporary ∧ e'.used = some conn ∧ e'.cli.fd = none

theorem makesConn_connectTurn (e : Exec σ) (conn : Nat) (now : Int) :
    MakesConn e conn (e.connectTurn P conn none now) := by
  unfold Exec.connectTurn
  dsimp only
  split
  · exact ⟨rfl, rfl, rfl⟩
  · next e' hcheck =>
    obtain ⟨t, rfl⟩ := checkTimeout_eq hcheck
    exact submit_fields _

/-! ## Clean exchanges -/

/-- A connection without failed exchanges whose unread bytes were sent during this call. -/
def LiveConn (w : ClientWorld σ) (n : Nat) : Prop :=
  n < w.nconns ∧ (w.conns n).failed = false ∧ ∀ b ∈ (w.conns n).inbox, b.1 = w.calls

/-- A connection without failed exchanges and without unread bytes. -/
def CleanConn (w : ClientWorld σ) (n : Nat) : Prop :=
  n < w.nconns ∧ (w.conns n).failed = false ∧ (w.conns n).inbox = []

/-- The temporary client of a redirected request has its own connections. -/
def Apart (w : ClientWorld σ) (e : Exec σ) : Prop :=
  e.temporary → ∀ n, w.cli.fd = some n → e.cli.fd ≠ some n ∧ e.used ≠ some n

/-- The client keeps a clean connection, and the running call has a live one. -/
structure CleanWorld (w : ClientWorld σ) : Prop where
  own : w.ownResponses
  bound : ∀ n, w.cli.fd = some n → n < w.nconns
  kept : (∀ e, w.exec = some e → e.temporary) → ∀ n, w.cli.fd = some n → CleanConn w n
  exec : ∀ e, w.exec = some e → e.pc ≠ .connect → ∀ n, e.cli.fd = some n → LiveConn w n
  apart : ∀ e, w.exec = some e → Apart w e

theorem CleanWorld.kept_of_temporary (hw : CleanWorld w) (hexec : w.exec = some e) (htemp : e.temporary)
    (hn : w.cli.fd = some n) : CleanConn w n := by
  refine hw.kept (fun e' he => ?_) n hn
  rw [hexec] at he
  cases he
  exact htemp

def TurnClean (w : ClientWorld σ) (temporary : Bool) : Turn σ → Prop
  | .next e => e.temporary = temporary ∧ (e.pc ≠ .connect → ∀ n, e.cli.fd = some n → LiveConn w n) ∧ Apart w e
  | .return_ e code => e.temporary = temporary ∧
      (∀ n, e.cli.fd = some n → code = 0 ∧ e.completed ∧ (temporary = false → CleanConn w n)) ∧ Apart w e

theorem conns_updateConn_ne {conn n : Nat} (change : Conn → Conn) (h : n ≠ conn) :
    (w.updateConn conn change).conns n = w.conns n := if_neg h

theorem cleanConn_congr (h : CleanConn w n) (hnconns : w.nconns ≤ w'.nconns) (hconn : w'.conns n = w.conns n) :
    CleanConn w' n := by
  unfold CleanConn
  rw [hconn]
  exact ⟨Nat.lt_of_lt_of_le h.1 hnconns, h.2⟩

theorem cleanConn_spoil (h : CleanConn w n) (hused : e.used ≠ some n) : CleanConn (w.spoil e code) n := by
  unfold spoil
  split
  · next conn hconn =>
    have hne : n ≠ conn := fun heq => hused (heq ▸ hconn)
    split_ifs
    · exact cleanConn_congr h le_rfl (conns_updateConn_ne _ hne)
    · exact h
  · exact h

theorem spoil_of_success (hcode : code = 0) (hcompleted : e.completed) : w.spoil e code = w := by
  unfold spoil
  split
  · rw [if_neg (by simp [hcode, hcompleted])]
  · rfl

theorem spoil_fields (w : ClientWorld σ) (e : Exec σ) (code : Int) :
    (w.spoil e code).cli = w.cli ∧ (w.spoil e code).nconns = w.nconns ∧ (w.spoil e code).writes = w.writes ∧
      (w.spoil e code).reads = w.reads ∧ ∀ n, ((w.spoil e code).conns n).tls = (w.conns n).tls := by
  unfold spoil
  split
  · split_ifs
    · refine ⟨rfl, rfl, rfl, rfl, fun n => ?_⟩
      simp only [updateConn]
      split_ifs <;> rfl
    · exact ⟨rfl, rfl, rfl, rfl, fun _ => rfl⟩
  · exact ⟨rfl, rfl, rfl, rfl, fun _ => rfl⟩

theorem cleanWorld_afterTurn {temporary : Bool} {turn : Turn σ} (hown : w.ownResponses)
    (hbound : ∀ n, w.cli.fd = some n → n < w.nconns)
    (hkept : temporary → ∀ n, w.cli.fd = some n → CleanConn w n) (hturn : TurnClean w temporary turn) :
    CleanWorld (w.afterTurn env turn) := by
  cases turn with
  | next e =>
    obtain ⟨htemp, hlive, hapart⟩ := hturn
    refine ⟨hown, hbound, fun hall => hkept ?_, fun e' he => ?_, fun e' he => ?_⟩
    · rw [← htemp]
      exact hall e rfl
    · cases he
      exact hlive
    · cases he
      exact hapart
  | return_ e code =>
    obtain ⟨htemp, hclosed, hapart⟩ := hturn
    obtain ⟨hcli, hnconns, hwrites, hreads, -⟩ := spoil_fields w e code
    have hclean : ∀ n, (if e.temporary then (w.spoil e code).cli else e.cli).fd = some n → CleanConn (w.spoil e code) n := by
      intro n hn
      cases htemporary : e.temporary with
      | true =>
        rw [htemporary, if_pos rfl, hcli] at hn
        exact cleanConn_spoil (hkept (htemp ▸ htemporary) n hn) (hapart htemporary n hn).2
      | false =>
        rw [htemporary, if_neg (by decide)] at hn
        obtain ⟨hcode, hcompleted, hconn⟩ := hclosed n hn
        rw [spoil_of_success hcode hcompleted]
        exact hconn (htemp ▸ htemporary)
    refine ⟨?_, fun n hn => (hclean n hn).1, fun _ => hclean, fun e' he _ n hn => ?_, fun e' he _ n _ => ?_⟩
    · simp only [afterTurn, returned, hwrites, hreads]
      exact hown
    · obtain ⟨req, rfl⟩ := returned_exec he
      cases hn
    · obtain ⟨req, rfl⟩ := returned_exec he
      exact ⟨fun h => (by cases h), fun h => (by cases h)⟩

theorem liveConn_of_clean (h : CleanConn w n) : LiveConn w n :=
  ⟨h.1, h.2.1, fun b hb => by rw [h.2.2] at hb; cases hb⟩

theorem turnClean_of_keeps {turn : Turn σ} (hkeeps : KeepsConn e turn)
    (hlive : ∀ n, e.cli.fd = some n → LiveConn w n) (hapart : Apart w e)
    (hreturn : ∀ e' code, turn = .return_ e' code → ∀ n, e'.cli.fd = some n →
      code = 0 ∧ e'.completed ∧ (e.temporary = false → CleanConn w n)) : TurnClean w e.temporary turn := by
  cases turn with
  | next e' =>
    obtain ⟨-, htemp, hused, hfd, -⟩ := hkeeps
    refine ⟨htemp, fun _ n hn => hlive n (hfd ▸ hn), fun htemporary n hn => ?_⟩
    rw [hfd, hused]
    exact hapart (htemp ▸ htemporary) n hn
  | return_ e' code =>
    obtain ⟨htemp, hused, hfd⟩ := hkeeps
    refine ⟨htemp, hreturn e' code rfl, fun htemporary n hn => ?_⟩
    obtain ⟨hne, hne'⟩ := hapart (htemp ▸ htemporary) n hn
    rw [hused]
    refine ⟨?_, hne'⟩
    rcases hfd with hfd | ⟨hfd, -⟩
    · rw [hfd]
      exact nofun
    · rw [hfd]
      exact hne

theorem cleanWorld_connected (hw : CleanWorld w) (hexec : w.exec = some e) : CleanWorld (afterTurn env
      { w.updateConn w.nconns (fun _ => ⟨e.req.https, [], false⟩) with nconns := w.nconns + 1 }
      (e.connectTurn env.parser w.nconns none now)) := by
  have hbound : ∀ n, w.cli.fd = some n → n < w.nconns + 1 := fun n hn => Nat.lt_succ_of_lt (hw.bound n hn)
  have hmakes := makesConn_connectTurn (P := env.parser) e w.nconns now
  have hother : ∀ n, w.cli.fd = some n → some w.nconns ≠ some n := by
    intro n hn heq
    cases heq
    exact Nat.lt_irrefl _ (hw.bound _ hn)
  refine @cleanWorld_afterTurn _ _ _ e.temporary _ hw.own hbound (fun htemp n hn => ?_) ?_
  · have hclean := hw.kept_of_temporary hexec htemp hn
    refine cleanConn_congr hclean (Nat.le_succ _) ?_
    exact @conns_updateConn_ne σ w w.nconns n (fun _ => ⟨e.req.https, [], false⟩) (Nat.ne_of_lt hclean.1)
  · generalize e.connectTurn env.parser w.nconns none now = turn at hmakes ⊢
    cases turn with
    | next e' =>
      obtain ⟨-, htemp, hused, hfd, -⟩ := hmakes
      refine ⟨htemp, fun _ n hn => ?_, fun _ n hn => ?_⟩
      · rw [hfd] at hn
        cases hn
        refine ⟨Nat.lt_succ_self _, ?_, ?_⟩
        · simp [updateConn]
        · simp [updateConn]
      · rw [hfd, hused]
        exact ⟨hother n hn, hother n hn⟩
    | return_ e' code =>
      obtain ⟨htemp, hused, hfd⟩ := hmakes
      refine ⟨htemp, fun n hn => ?_, fun _ n hn => ?_⟩
      · rw [hfd] at hn
        cases hn
      · rw [hfd, hused]
        exact ⟨nofun, hother n hn⟩

theorem cleanWorld_send (hw : CleanWorld w) (hexec : w.exec = some e)
    (hfd : e.cli.fd = some conn) (hpc : e.pc = .send) :
    CleanWorld ((if e.callsSystem io && io.result.isSome then w.wrote e conn else w).afterTurn env
      (e.sendTurn env.parser io)) := by
  have hlive := hw.exec e hexec (by rw [hpc]; decide)
  have hwrites : (w.wrote e conn).ownResponses := by
    refine ⟨hw.own.1, fun r hr => ?_⟩
    rcases mem_append.1 hr with hr | hr
    · exact hw.own.2 r hr
    · rw [mem_singleton.1 hr]
      exact (hlive conn hfd).2.1
  have hturn : TurnClean w e.temporary (e.sendTurn env.parser io) := by
    refine turnClean_of_keeps (keepsConn_sendTurn io) hlive (hw.apart e hexec) fun e' code heq n hn => ?_
    rw [sendTurn_return heq] at hn
    cases hn
  have hkept : e.temporary → ∀ n, w.cli.fd = some n → CleanConn w n := fun htemp _ =>
    hw.kept_of_temporary hexec htemp
  split_ifs
  · -- neither the connections nor the client change with the write
    have hturn' : TurnClean (w.wrote e conn) e.temporary (e.sendTurn env.parser io) := hturn
    exact cleanWorld_afterTurn hwrites hw.bound hkept hturn'
  · exact cleanWorld_afterTurn hw.own hw.bound hkept hturn

theorem cleanWorld_recvFailed (hw : CleanWorld w) (hexec : w.exec = some e)
    (hpc : e.pc = .recv) (hresult : io.result = none) (hintr : e.cli.parser.isComplete → io.errno ≠ eintr) :
    CleanWorld (w.afterTurn env (e.recvTurn env.parser io (w.recvBytes conn io))) := by
  have hlive := hw.exec e hexec (by rw [hpc]; decide)
  refine @cleanWorld_afterTurn _ _ _ e.temporary _ hw.own hw.bound (fun htemp n hn => ?_) ?_
  · exact hw.kept_of_temporary hexec htemp hn
  · refine turnClean_of_keeps (keepsConn_recvTurn io _) hlive (hw.apart e hexec) fun e' code heq n hn => ?_
    rw [recvTurn_return_failed hresult hintr heq] at hn
    cases hn

/-! A read takes bytes from the connection of the call. -/

theorem failed_received : ((w.received conn n cancelled).conns k).failed = (w.conns k).failed := by
  simp only [received, updateConn]
  split_ifs <;> rfl

theorem cleanConn_received (h : CleanConn w k) : CleanConn (w.received conn n cancelled) k := by
  obtain ⟨hk, hfailed, hinbox⟩ := h
  refine ⟨hk, failed_received.trans hfailed, ?_⟩
  simp only [received, updateConn]
  split_ifs
  · simp [hinbox]
  · exact hinbox

theorem liveConn_received (h : LiveConn w k) : LiveConn (w.received conn n cancelled) k := by
  obtain ⟨hk, hfailed, hinbox⟩ := h
  refine ⟨hk, failed_received.trans hfailed, ?_⟩
  simp only [received, updateConn]
  split_ifs
  · exact fun b hb => hinbox b (mem_of_mem_drop hb)
  · exact hinbox

theorem cleanConn_received_all (h : LiveConn w conn) :
    CleanConn (w.received conn (w.conns conn).inbox.length cancelled) conn := by
  obtain ⟨hk, hfailed, -⟩ := h
  refine ⟨hk, failed_received.trans hfailed, ?_⟩
  simp only [received, updateConn, if_true, drop_length]

theorem ownResponses_received (hown : w.ownResponses) (h : LiveConn w conn) :
    (w.received conn n cancelled).ownResponses := by
  refine ⟨fun r hr => ?_, hown.2⟩
  simp only [received] at hr
  split_ifs at hr
  · exact hown.1 r hr
  · rcases mem_append.1 hr with hr | hr
    · exact hown.1 r hr
    · rw [mem_singleton.1 hr]
      refine ⟨fun k hk => ?_, h.2.1⟩
      obtain ⟨b, hb, rfl⟩ := mem_map.1 hk
      exact h.2.2 b (mem_of_mem_take hb)

theorem cleanWorld_recv (hw : CleanWorld w) (hexec : w.exec = some e)
    (hfd : e.cli.fd = some conn) (hpc : e.pc = .recv) (hresult : io.result = some n)
    (hn : n ≤ (w.conns conn).inbox.length) (hok : w.exchangesCleanly env (.recv io)) :
    CleanWorld ((if e.callsSystem io then w.received conn n io.cancelled else w).afterTurn env
      (e.recvTurn env.parser io (w.recvBytes conn io))) := by
  simp only [exchangesCleanly, hexec, hfd, hresult, all_some, Bool.and_eq_true, Bool.or_eq_true,
    Bool.not_eq_true', decide_eq_true_eq, isEmpty_eq_false_iff] at hok
  obtain ⟨⟨hparse, hstale⟩, hall⟩ := hok
  have hlive := hw.exec e hexec (by rw [hpc]; decide)
  have hapart := hw.apart e hexec
  have hkept : e.temporary → ∀ k, w.cli.fd = some k → CleanConn w k := fun htemp _ =>
    hw.kept_of_temporary hexec htemp
  -- a connection that is kept had no more bytes than those that were parsed
  have hreturn : ∀ e' code, e.recvTurn env.parser io (w.recvBytes conn io) = .return_ e' code → ∀ k, e'.cli.fd = some k →
      code = 0 ∧ e'.completed ∧ e.callsSystem io ∧ n = (w.conns conn).inbox.length ∧ k = conn := by
    intro e' code heq k hk
    have hk' : e'.cli.fd = e.cli.fd := by
      have hkeeps := keepsConn_recvTurn (P := env.parser) (e := e) io (w.recvBytes conn io)
      rw [heq] at hkeeps
      rcases hkeeps.2.2 with hnone | ⟨hsame, -⟩
      · rw [hnone] at hk
        cases hk
      · exact hsame
    rw [hk', hfd] at hk
    cases hk
    have hparse' : e.nparse env.parser (w.recvBytes conn io) = (w.recvBytes conn io).length := by
      rw [hparse]
      simp [recvBytes, hresult, hn]
    rcases recvTurn_return_data hresult hparse' (fun h => hstale.resolve_left (by simp [h])) heq with
      hnone | ⟨hcode, hcompleted, hcalls, hcomplete, hkeep, hkeep'⟩
    · rw [hk', hfd] at hnone
      cases hnone
    · refine ⟨hcode, hcompleted, hcalls, hall.resolve_left ?_, rfl⟩
      rintro (h | h)
      · rw [hcomplete] at h
        cases h
      · rw [hkeep, hkeep'] at h
        cases h
  by_cases hcalls : e.callsSystem io
  · rw [if_pos hcalls]
    refine @cleanWorld_afterTurn _ _ _ e.temporary _ (ownResponses_received hw.own (hlive conn hfd)) hw.bound
      (fun htemp k hk => cleanConn_received (hkept htemp k hk)) ?_
    refine turnClean_of_keeps (keepsConn_recvTurn io _) (fun k hk => liveConn_received (hlive k hk)) hapart ?_
    intro e' code heq k hk
    obtain ⟨hcode, hcompleted, -, hlen, rfl⟩ := hreturn e' code heq k hk
    refine ⟨hcode, hcompleted, fun _ => ?_⟩
    rw [hlen]
    exact cleanConn_received_all (hlive k hfd)
  · rw [if_neg hcalls]
    refine @cleanWorld_afterTurn _ _ _ e.temporary _ hw.own hw.bound hkept ?_
    refine turnClean_of_keeps (keepsConn_recvTurn io _) hlive hapart ?_
    intro e' code heq k hk
    exact absurd (hreturn e' code heq k hk).2.2.1 hcalls

theorem cleanWorld_start (hw : CleanWorld w) (hexec : w.exec = some e) (hpc : e.pc = .start) :
    CleanWorld { w with exec := some (e.startTurn env.parser now) } := by
  have hlive := hw.exec e hexec (by rw [hpc]; decide)
  obtain ⟨-, htemp, hfd, -, hused⟩ := startTurn_cases (P := env.parser) e now
  refine ⟨hw.own, hw.bound, fun hall => hw.kept fun e' he => ?_, fun e' he hpc' n hn => ?_, fun e' he htemporary n hn => ?_⟩
  · rw [hexec] at he
    cases he
    rw [← htemp]
    exact hall _ rfl
  · cases he
    rw [hfd] at hn
    exact hlive n hn
  · cases he
    rw [htemp] at htemporary
    obtain ⟨hne, hne'⟩ := hw.apart e hexec htemporary n hn
    rw [hfd]
    refine ⟨hne, ?_⟩
    rcases hused with ⟨-, hused⟩ | ⟨-, hused⟩
    · rw [hused]
      exact hne
    · rw [hused]
      exact hne'

theorem cleanWorld_server (hw : CleanWorld w) {bytes : ByteString}
    (hok : w.exchangesCleanly env (.server conn bytes)) :
    CleanWorld (w.updateConn conn fun c => { c with inbox := c.inbox ++ bytes.map fun b => (w.calls, b) }) := by
  simp only [exchangesCleanly, Bool.or_eq_true, decide_eq_true_eq] at hok
  refine ⟨hw.own, hw.bound, fun hall n hn => ?_, fun e he hpc n hn => ?_, hw.apart⟩
  · have hne : n ≠ conn := by
      rintro rfl
      rcases hok with hok | hok
      · exact hok hn
      · cases he : w.exec with
        | none =>
          rw [he] at hok
          cases hok
        | some e =>
          rw [he, any_some, hall e he] at hok
          cases hok
    exact cleanConn_congr (hw.kept hall n hn) le_rfl (conns_updateConn_ne _ hne)
  · obtain ⟨hn', hfailed, hinbox⟩ := hw.exec e he hpc n hn
    refine ⟨hn', ?_, ?_⟩
    · simp only [updateConn]
      split_ifs <;> exact hfailed
    · simp only [updateConn]
      split_ifs
      · intro b hb
        rcases mem_append.1 hb with hb | hb
        · exact hinbox b hb
        · obtain ⟨-, -, rfl⟩ := mem_map.1 hb
          rfl
      · exact hinbox

theorem cleanWorld_step (hw : CleanWorld w) {a : ClientAct} (hok : w.exchangesCleanly env a)
    (hs : clientStep env w a = some w') : CleanWorld w' := by
  cases clientStep_cases hs with
  | call req hexec =>
    have hclean := hw.kept fun e he => by rw [hexec] at he; cases he
    refine ⟨hw.own, hw.bound, fun hall => ?_, fun e he _ n hn => ?_, fun e he htemp => ?_⟩
    · cases hall _ rfl
    · cases he
      exact liveConn_of_clean (hclean n hn)
    · cases he
      cases htemp
  | start now hexec hpc => exact cleanWorld_start hw hexec hpc
  | connected now hexec hpc => exact cleanWorld_connected hw hexec
  | @connectFailed code now e hexec hpc hcode =>
    refine @cleanWorld_afterTurn _ _ _ e.temporary _ hw.own hw.bound (fun htemp n hn => ?_) ?_
    · exact hw.kept_of_temporary hexec htemp hn
    · exact ⟨rfl, fun n hn => (by cases hn), fun htemp n hn => ⟨nofun, (hw.apart e hexec htemp n hn).2⟩⟩
  | send io hexec hfd hpc => exact cleanWorld_send hw hexec hfd hpc
  | recv io n hexec hfd hpc hresult hn => exact cleanWorld_recv hw hexec hfd hpc hresult hn.2 hok
  | @recvFailed io e conn hexec hfd hpc hresult =>
    simp only [exchangesCleanly, hexec, hfd, hresult, all_some, Bool.or_eq_true, Bool.not_eq_true',
      decide_eq_true_eq] at hok
    exact cleanWorld_recvFailed hw hexec hpc hresult fun h => hok.resolve_left (by simp [h])
  | server conn bytes hconn => exact cleanWorld_server hw hok

/-- If the exchanges are clean, the bytes that are parsed into the response of a call were sent during this
    call, and a connection on which an exchange has failed is not used again. -/
theorem client_reads_own_responses (env : ClientEnv σ) (host : ByteString) (port : Nat) {w : ClientWorld σ}
    (h : Reachable (clientStep env) (fun w a => w.exchangesCleanly env a = true) (· = newClientWorld env host port) w) :
    w.ownResponses := by
  have hinv : CleanWorld w := by
    apply h.invariant
    · rintro w rfl
      exact ⟨⟨fun r hr => (by cases hr), fun r hr => (by cases hr)⟩, fun n hn => (by cases hn), fun _ n hn => (by cases hn),
        fun e he => (by cases he), fun e he => (by cases he)⟩
    · exact fun _ _ _ hw hok hs => cleanWorld_step hw hok hs
  exact hinv.own

def secondExchange : List ClientAct :=
  firstExchange ++ [.call (plainRequest false), .start 0, .send (ioDone 18), .server 0 emptyResponse, .recv (ioDone 38)]

theorem client_reads_own_responses_twice :
    ∃ w, runFrom (guarded (clientStep emptyEnv) (fun w a => w.exchangesCleanly emptyEnv a = true))
        (newClientWorld emptyEnv (ascii "server") 8080) secondExchange = some w ∧
      w.nconns = 1 ∧ w.returns = [⟨0, emptyResponse, true⟩, ⟨0, emptyResponse, true⟩] ∧ w.ownResponses := by
  refine exists_run (by decide +kernel) fun w hrun => ⟨?_, ?_, client_reads_own_responses emptyEnv (ascii "server") 8080
    (Reachable.runGuarded secondExchange (.start rfl) hrun)⟩
  all_goals exact of_run hrun (by decide +kernel)

/-- The first response starts with a byte that cannot be parsed, and the client reads it alone. -/
def malformedResponse : List ClientAct :=
  [.call (plainRequest false), .start 0, .connect none 0, .send (ioDone 18),
    .server 0 (ascii "x" ++ emptyResponse), .recv (ioDone 1),
    .call (plainRequest false), .start 0, .send (ioDone 18), .recv (ioDone 38)]

/-- The first call ends with `ERR_PARSE`, and the second takes the rest of its response for its own. -/
theorem parse_error_keeps_connection :
    ∃ w, Reachable (clientStep emptyEnv) Always (· = newClientWorld emptyEnv (ascii "server") 8080) w ∧
      w.nconns = 1 ∧ w.returns = [⟨errParse, ascii "x", false⟩, ⟨0, emptyResponse, true⟩] ∧
      w.reads = [⟨1, [1], false⟩, ⟨2, List.replicate 38 1, true⟩] ∧ ¬ w.ownResponses := by
  refine exists_reached malformedResponse rfl (by decide +kernel) fun w _ hrun => ⟨?_, ?_, ?_, fun hown => ?_⟩
  rotate_right
  · have hlast := (hown.1 ⟨2, replicate 38 1, true⟩ (of_run hrun (by decide +kernel))).2
    cases hlast
  all_goals exact of_run hrun (by decide +kernel)

end HvVerified.Http.Proofs
