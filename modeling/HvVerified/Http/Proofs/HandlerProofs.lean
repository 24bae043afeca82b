import Mathlib.Data.List.Basic
import HvVerified.Http.HttpHandler

/-!
# Receiving byte by byte

The vendored parser collects data, so the callbacks of one call of `http_parser_execute` depend on how
the input is cut into segments. `Http1Parser` only appends the data it is given, so their effect does
not: feeding a segment is the same as handling the events of one byte after the other (`feedBytes`).
-/

namespace HvVerified.Http.Proofs

open Base Http HttpHandler List ParserEvent

variable {σ ρ : Type} {env : ServerEnv σ ρ} {h h' : HttpHandler σ ρ} (kind : DataKind)

def onEvent (env : ServerEnv σ ρ) (h : HttpHandler σ ρ) : ParserEvent → HttpHandler σ ρ
  | .data kind bytes => h.onData env kind bytes
  | .notice n => h.onNotice env n

def feedBytes (env : ServerEnv σ ρ) : HttpHandler σ ρ → ByteString → Option (HttpHandler σ ρ)
  | h, [] => some h
  | h, b :: bs =>
    match env.parser.next h.vendored b with
    | none => none
    | some r => feedBytes env (r.2.foldl (onEvent env) { h with vendored := r.1 }) bs

theorem feedBytes_append (a b : ByteString) :
    feedBytes env h (a ++ b) = (feedBytes env h a).bind fun h' => feedBytes env h' b := by
  induction a generalizing h with
  | nil => rfl
  | cons x a ih =>
    rw [cons_append, feedBytes, feedBytes]
    cases env.parser.next h.vendored x with
    | none => rfl
    | some r => exact ih

/-! ## Collected data -/

theorem onData_body (bytes : ByteString) : h.onData env .body bytes = { h with
      parser := { h.parser with state := .body }
      req := if h.stuck then h.req else { h.req with body := h.req.body ++ bytes } } := by
  show (if h.stuck then _ else _) = _
  split_ifs <;> rfl

theorem onData_append (a b : ByteString) :
    (h.onData env kind a).onData env kind b = h.onData env kind (a ++ b) := by
  cases kind with
  | url => simp [onData, onUrl, append_assoc]
  | headerField =>
    simp only [onData, onHeaderField]
    split_ifs <;> simp [append_assoc]
  | headerValue => simp [onData, onHeaderValue, append_assoc]
  | body =>
    have hstuck : (h.onData env .body a).stuck = h.stuck := by
      rw [onData_body]
      rfl
    rw [onData_body (h := h.onData env .body a), hstuck, onData_body, onData_body]
    cases h.stuck <;> simp [append_assoc]

theorem onData_vendored (bytes : ByteString) (st : σ) :
    { h with vendored := st }.onData env kind bytes = { h.onData env kind bytes with vendored := st } := by
  cases kind with
  | url | headerValue => rfl
  | headerField =>
    simp only [onData, onHeaderField, handleHeader]
    split_ifs <;> rfl
  | body =>
    rw [onData_body, onData_body]
    rfl

theorem flush_vendored (pend : Option (DataKind × ByteString)) (st : σ) :
    { h with vendored := st }.flush env pend = { h.flush env pend with vendored := st } := by
  cases pend with
  | none => rfl
  | some piece => exact onData_vendored piece.1 piece.2 st

theorem vendored_flush (pend : Option (DataKind × ByteString)) : (h.flush env pend).vendored = h.vendored := by
  rw [flush_vendored (h := h) pend h.vendored]

theorem flush_deliver (x : HttpHandler σ ρ × Option (DataKind × ByteString)) (ev : ParserEvent) :
    (deliver env x ev).1.flush env (deliver env x ev).2 = onEvent env (x.1.flush env x.2) ev := by
  obtain ⟨h, pend⟩ := x
  cases ev with
  | notice n => rfl
  | data kind bytes =>
    cases pend with
    | none => rfl
    | some piece =>
      simp only [deliver]
      split_ifs with hk
      · subst hk
        exact (onData_append piece.1 piece.2 bytes).symm
      · rfl

theorem flush_foldl_deliver (evs : List ParserEvent) (x : HttpHandler σ ρ × Option (DataKind × ByteString)) :
    (evs.foldl (deliver env) x).1.flush env (evs.foldl (deliver env) x).2 =
      evs.foldl (onEvent env) (x.1.flush env x.2) := by
  induction evs generalizing x with
  | nil => rfl
  | cons ev evs ih => rw [foldl_cons, foldl_cons, ih, flush_deliver]

/-- `http_parser_execute` has the effect of the events byte by byte. -/
theorem execute_eq {bs : ByteString} {x : HttpHandler σ ρ × Option (DataKind × ByteString)}
    (hf : feedBytes env (x.1.flush env x.2) bs = some h') : execute env x bs = (h', true) := by
  induction bs generalizing x with
  | nil =>
    obtain rfl := Option.some_inj.1 hf
    rfl
  | cons b bs ih =>
    rw [feedBytes, vendored_flush] at hf
    rw [execute]
    cases hnext : env.parser.next x.1.vendored b with
    | none =>
      rw [hnext] at hf
      cases hf
    | some r =>
      rw [hnext] at hf
      apply ih
      rw [flush_foldl_deliver, flush_vendored]
      exact hf

/-! ## Before the message is complete -/

/-- What the handler does while a request is received: it may set an error or ask for the connection to be
    closed, but nothing is handed to a handler and nothing is written. -/
structure Absorbs (h h' : HttpHandler σ ρ) : Prop where
  protocol : h'.protocol = h.protocol
  vendored : h'.vendored = h.vendored
  delivered : h'.delivered = h.delivered
  running : h'.running = h.running
  written : h'.written = h.written
  state : h'.state = h.state ∨ h'.state = .wantClose
  error : h.error ≠ .none → h'.error ≠ .none

theorem Absorbs.refl (h : HttpHandler σ ρ) : Absorbs h h := ⟨rfl, rfl, rfl, rfl, rfl, .inl rfl, id⟩

theorem Absorbs.trans {h'' : HttpHandler σ ρ} (a : Absorbs h h') (b : Absorbs h' h'') : Absorbs h h'' := by
  refine ⟨b.protocol.trans a.protocol, b.vendored.trans a.vendored, b.delivered.trans a.delivered,
    b.running.trans a.running, b.written.trans a.written, ?_, fun he => b.error (a.error he)⟩
  rcases b.state with hb | hb
  · rw [hb]
    exact a.state
  · exact .inr hb

theorem absorbs_handleHeader : Absorbs h (h.handleHeader env) := by
  unfold handleHeader
  split_ifs
  · exact Absorbs.refl h
  · exact ⟨rfl, rfl, rfl, rfl, rfl, .inl rfl, id⟩

theorem absorbs_onData (bytes : ByteString) : Absorbs h (h.onData env kind bytes) := by
  cases kind with
  | url | headerValue => exact ⟨rfl, rfl, rfl, rfl, rfl, .inl rfl, id⟩
  | headerField =>
    simp only [onData, onHeaderField]
    split_ifs
    · exact ⟨rfl, rfl, rfl, rfl, rfl, .inl rfl, id⟩
    · exact absorbs_handleHeader.trans ⟨rfl, rfl, rfl, rfl, rfl, .inl rfl, id⟩
  | body =>
    rw [onData_body]
    exact ⟨rfl, rfl, rfl, rfl, rfl, .inl rfl, id⟩

theorem absorbs_checkRequest (he : h.error = .none) : Absorbs h (h.checkRequest env) := by
  have hno : h.error ≠ .none → ∀ e : HandlerError, e ≠ .none := fun hne => absurd he hne
  unfold checkRequest setError
  dsimp only
  split_ifs
  · exact ⟨rfl, rfl, rfl, rfl, rfl, .inl rfl, fun hne => hno hne _⟩
  · exact ⟨rfl, rfl, rfl, rfl, rfl, .inl rfl, fun hne => hno hne _⟩
  · exact ⟨rfl, rfl, rfl, rfl, rfl, .inl rfl, id⟩

theorem absorbs_onHeadersComplete (he : h.error = .none) : Absorbs h (h.onHeadersComplete env) := by
  have hheaders : Absorbs h (h.handleRequestHeaders env) := ⟨rfl, rfl, rfl, rfl, rfl, .inl rfl, id⟩
  unfold onHeadersComplete
  dsimp only
  split
  · exact hheaders.trans (absorbs_checkRequest he)
  · split_ifs
    · exact hheaders.trans ⟨rfl, rfl, rfl, rfl, rfl, .inr rfl, id⟩
    · exact hheaders.trans ⟨rfl, rfl, rfl, rfl, rfl, .inl rfl, fun hne => absurd he hne⟩
    · refine (hheaders.trans ?_).trans (absorbs_checkRequest he)
      exact ⟨rfl, rfl, rfl, rfl, rfl, .inl rfl, id⟩

theorem absorbs_onEvent {ev : ParserEvent} (hev : ev.isMessageComplete = false) : Absorbs h (onEvent env h ev) := by
  cases ev with
  | data kind bytes => exact absorbs_onData kind bytes
  | notice n =>
    cases n with
    | messageBegin | chunkHeader | chunkComplete => exact ⟨rfl, rfl, rfl, rfl, rfl, .inl rfl, id⟩
    | messageComplete => cases hev
    | headersComplete method httpMajor httpMinor =>
      have hdone : Absorbs h (h.headersCompleted env method httpMajor httpMinor) :=
        absorbs_handleHeader.trans ⟨rfl, rfl, rfl, rfl, rfl, .inl rfl, id⟩
      simp only [onEvent, onNotice]
      split_ifs with hstuck
      · exact hdone
      · have herror : (h.headersCompleted env method httpMajor httpMinor).error = .none := by
          simp only [stuck, Bool.or_eq_true, not_or, decide_eq_true_eq, not_not] at hstuck
          exact hstuck.2
        exact hdone.trans (absorbs_onHeadersComplete herror)

theorem absorbs_foldl {evs : List ParserEvent} (hevs : ∀ ev ∈ evs, ev.isMessageComplete = false) :
    Absorbs h (evs.foldl (onEvent env) h) := by
  induction evs generalizing h with
  | nil => exact Absorbs.refl h
  | cons ev evs ih =>
    exact (absorbs_onEvent (hevs ev mem_cons_self)).trans (ih fun x hx => hevs x (mem_cons_of_mem ev hx))

theorem Absorbs.setVendored (a : Absorbs h h') (st : σ) :
    Absorbs { h with vendored := st } { h' with vendored := st } :=
  ⟨a.protocol, rfl, a.delivered, a.running, a.written, a.state, a.error⟩

theorem Absorbs.stuck (a : Absorbs h h') (hs : h.stuck) : h'.stuck := by
  simp only [HttpHandler.stuck, Bool.or_eq_true, decide_eq_true_eq] at hs ⊢
  rcases hs with hs | he
  · rcases a.state with hs' | hs'
    · exact .inl (hs'.trans hs)
    · exact .inl hs'
  · exact .inr (a.error he)

theorem not_stuck_iff : h.stuck = false ↔ h.state ≠ .wantClose ∧ h.error = .none := by
  simp [HttpHandler.stuck]

/-! ## Single requests -/

section

variable {P : VendoredParser σ} {st : σ} {seen : Bool} {b : UInt8} {bs : ByteString}

theorem completes_last (hc : P.completes st seen [b]) :
    ∃ st' evs, P.next st b = some (st', evs ++ [.notice .messageComplete]) ∧
      (∀ ev ∈ evs, ev.isMessageComplete = false) ∧ (seen || evs.any isHeadersComplete) := by
  rw [VendoredParser.completes] at hc
  split at hc
  · cases hc
  · rename_i r hr
    simp only [if_true, Bool.and_eq_true, beq_iff_eq, all_eq_true, Bool.not_eq_true'] at hc
    obtain ⟨⟨hseen, hlast⟩, hevs⟩ := hc
    have heq : r.2 = r.2.dropLast ++ [.notice .messageComplete] := by
      exact (dropLast_append_getLast? _ hlast).symm
    refine ⟨r.1, r.2.dropLast, by rw [← heq, hr], hevs, ?_⟩
    rw [heq, any_append] at hseen
    simpa [isHeadersComplete] using hseen

theorem completes_more (hc : P.completes st seen (b :: bs)) (hbs : bs ≠ []) :
    ∃ st' evs, P.next st b = some (st', evs) ∧ (∀ ev ∈ evs, ev.isMessageComplete = false) ∧
      P.completes st' (seen || evs.any isHeadersComplete) bs := by
  rw [VendoredParser.completes] at hc
  split at hc
  · cases hc
  · rename_i r hr
    rw [if_neg hbs] at hc
    obtain ⟨hevs, hmore⟩ := Bool.and_eq_true_iff.1 hc
    refine ⟨r.1, r.2, hr, fun ev hev => ?_, hmore⟩
    simpa using all_eq_true.1 hevs ev hev

theorem ne_nil_of_completes (hc : P.completes st seen bs) : bs ≠ [] := by
  rintro rfl
  cases hc

end

theorem feedBytes_part {seen : Bool} {p q : ByteString} (hc : env.parser.completes h.vendored seen (p ++ q))
    (hq : q ≠ []) : ∃ h' seen', feedBytes env h p = some h' ∧ Absorbs { h with vendored := h'.vendored } h' ∧
      env.parser.completes h'.vendored seen' q := by
  induction p generalizing h seen with
  | nil => exact ⟨h, seen, rfl, Absorbs.refl h, hc⟩
  | cons b p ih =>
    obtain ⟨st', evs, hnext, hevs, hmore⟩ := completes_more hc (by simp [hq])
    have hfold : Absorbs { h with vendored := st' } (evs.foldl (onEvent env) { h with vendored := st' }) :=
      absorbs_foldl hevs
    rw [feedBytes, hnext]
    rw [show st' = _ from hfold.vendored.symm] at hmore
    obtain ⟨h', seen', hfeed, habs, hc'⟩ := ih hmore
    exact ⟨h', seen', hfeed, (hfold.setVendored h'.vendored).trans habs, hc'⟩

theorem feedBytes_last {seen : Bool} {b : UInt8} (hc : env.parser.completes h.vendored seen [b]) :
    ∃ st' h₁, Absorbs { h with vendored := st' } h₁ ∧
      feedBytes env h [b] = some (h₁.onNotice env .messageComplete) := by
  obtain ⟨st', evs, hnext, hevs, -⟩ := completes_last hc
  refine ⟨st', evs.foldl (onEvent env) { h with vendored := st' }, absorbs_foldl hevs, ?_⟩
  rw [feedBytes, hnext]
  dsimp only
  rw [foldl_append]
  rfl

theorem feedBytes_request {seen : Bool} {s : ByteString} (hc : env.parser.completes h.vendored seen s) :
    ∃ st' h₁, Absorbs { h with vendored := st' } h₁ ∧ feedBytes env h s = some (h₁.onNotice env .messageComplete) := by
  obtain ⟨p, b, rfl⟩ : ∃ p b, s = p ++ [b] :=
    ⟨_, _, (dropLast_append_getLast (ne_nil_of_completes hc)).symm⟩
  obtain ⟨h', seen', hfeed, habs, hc'⟩ := feedBytes_part hc (cons_ne_nil b [])
  obtain ⟨st', h₁, habs', hlast⟩ := feedBytes_last hc'
  refine ⟨st', h₁, (habs.setVendored st').trans habs', ?_⟩
  rw [feedBytes_append, hfeed]
  exact hlast

theorem delivered_of_stuck (hs : h.stuck) : (h.onNotice env .messageComplete).delivered = h.delivered := by
  simp only [onNotice, onMessageComplete]
  split_ifs with hclose he hproxy
  · rfl
  · rfl
  · rfl
  all_goals
    simp only [HttpHandler.stuck, Bool.or_eq_true, decide_eq_true_eq] at hs
    rcases hs with hs | hs
    · exact absurd hs hclose
    · exact absurd hs he

end HvVerified.Http.Proofs
