import HvVerified.Http.Proofs.HandlerProofs

/-!
# Requests in segments

After the first segment a request is read the same way however it is cut: a segment that does not
complete it is absorbed, and once the handler has given up on the request nothing is handed over,
whether the connection is closed at that segment or the rest was part of it. The first segment is
different, since the protocol is recognised from it alone.
-/

namespace HvVerified.Http.Proofs

open Base Http HttpHandler List

section

variable {σ ρ : Type} {env : ServerEnv σ ρ} {h h' : HttpHandler σ ρ} {seen : Bool}
  {seg s : ByteString} {segs : List ByteString}

def feedResult (h : HttpHandler σ ρ) (n : Nat) : Int :=
  if h.state = .wantClose then 0 else if h.error ≠ .none then -1 else n

theorem feedResult_of_stuck (hs : h.stuck) {n : Nat} (hn : 0 < n) : feedResult h n ≠ n := by
  simp only [HttpHandler.stuck, Bool.or_eq_true, decide_eq_true_eq] at hs
  rw [feedResult]
  rcases hs with hs | hs
  · rw [if_pos hs]
    omega
  · split_ifs <;> omega

theorem feedResult_of_not_stuck (hs : h.stuck = false) (n : Nat) : feedResult h n = n := by
  obtain ⟨hclose, herr⟩ := not_stuck_iff.1 hs
  rw [feedResult, if_neg hclose, if_neg (not_not.2 herr)]

theorem feedRecvData_of_feedBytes (hprot : h.protocol = .httpV1) (hstate : h.state = .wantRecv)
    (hfeed : feedBytes env h seg = some h') : feedRecvData env h seg = (h', feedResult h' seg.length) := by
  simp only [feedRecvData, hprot, feedHttp, hstate, ne_eq, not_true_eq_false, if_false, execute_eq (x := (h, none)) hfeed,
    feedResult]
  split_ifs <;> first | rfl | contradiction

theorem feedAll_of_stuck (hrecv : feedRecvData env h seg = (h', feedResult h' seg.length)) (hseg : seg ≠ [])
    (hs : h'.stuck) : feedAll env h (seg :: segs) = h' := by
  have hlen : 0 < seg.length := length_pos_iff.2 hseg
  rw [feedAll, hrecv]
  exact if_neg (feedResult_of_stuck hs hlen)

theorem feedAll_of_not_stuck (hrecv : feedRecvData env h seg = (h', feedResult h' seg.length))
    (hs : h'.stuck = false) : feedAll env h (seg :: segs) = feedAll env h' segs := by
  rw [feedAll, hrecv]
  exact if_pos (feedResult_of_not_stuck hs seg.length)

theorem delivered_feedBytes_of_stuck (hs : h.stuck) (hc : env.parser.completes h.vendored seen s) :
    ∃ h', feedBytes env h s = some h' ∧ h'.delivered = h.delivered := by
  obtain ⟨st', h₁, habs, hfeed⟩ := feedBytes_request hc
  exact ⟨_, hfeed, (delivered_of_stuck (habs.stuck hs)).trans habs.delivered⟩

/-- However the rest of a request is cut, it hands over what its bytes hand over. -/
theorem delivered_feedAll (hprot : h.protocol = .httpV1) (hstate : h.state = .wantRecv) (herr : h.error = .none)
    (hne : ∀ seg ∈ segs, seg ≠ []) (hc : env.parser.completes h.vendored seen segs.flatten) :
    ∃ h', feedBytes env h segs.flatten = some h' ∧ (feedAll env h segs).delivered = h'.delivered := by
  induction segs generalizing h seen with
  | nil => exact absurd rfl (ne_nil_of_completes hc)
  | cons seg segs ih =>
    have hseg : seg ≠ [] := hne seg mem_cons_self
    have hne' : ∀ seg ∈ segs, seg ≠ [] := fun seg hmem => hne seg (mem_cons_of_mem _ hmem)
    rw [flatten_cons] at hc ⊢
    by_cases hrest : segs.flatten = []
    · -- the last segment completes the request
      obtain rfl : segs = [] := by
        refine eq_nil_iff_forall_not_mem.2 fun seg' hmem => hne' seg' hmem ?_
        exact flatten_eq_nil_iff.1 hrest seg' hmem
      rw [hrest, append_nil] at hc ⊢
      obtain ⟨st', h₁, -, hfeed⟩ := feedBytes_request hc
      refine ⟨_, hfeed, ?_⟩
      simp only [feedAll, ite_self, feedRecvData_of_feedBytes hprot hstate hfeed]
    · obtain ⟨h₁, seen', hfeed, habs, hc'⟩ := feedBytes_part hc hrest
      have hrecv := feedRecvData_of_feedBytes hprot hstate hfeed
      rw [feedBytes_append, hfeed, Option.bind_some]
      cases hs : h₁.stuck with
      | true =>
        obtain ⟨h₂, hfeed₂, hdel⟩ := delivered_feedBytes_of_stuck hs hc'
        exact ⟨h₂, hfeed₂, by rw [feedAll_of_stuck hrecv hseg hs, hdel]⟩
      | false =>
        obtain ⟨hclose, herr₁⟩ := not_stuck_iff.1 hs
        have hstate₁ : h₁.state = .wantRecv := (habs.state.resolve_right hclose).trans hstate
        rw [feedAll_of_not_stuck hrecv hs]
        exact ih (habs.protocol.trans hprot) hstate₁ herr₁ hne' hc'

/-! ## The first segment -/

/-- What `FeedRecvData` asks of the first segment. -/
def recognised (seg : ByteString) : Bool :=
  decide (minHttpRequestLen ≤ seg.length) && (seg.take minHttpRequestLen).all isGraph

theorem feedRecvData_of_recognised (hrec : recognised seg) :
    feedRecvData env (newHandler env) seg = feedRecvData env { newHandler env with protocol := .httpV1 } seg := by
  simp only [recognised, Bool.and_eq_true, decide_eq_true_eq] at hrec
  simp only [feedRecvData, newHandler]
  rw [if_neg (Nat.not_lt.2 hrec.1), if_neg (by rw [hrec.2]; decide)]

theorem feedRecvData_of_not_recognised (hrec : recognised seg = false) :
    feedRecvData env (newHandler env) seg = ((newHandler env).setError .request, -1) := by
  simp only [feedRecvData, newHandler]
  split_ifs with hlen hall
  · rfl
  · rfl
  · simp only [recognised, Bool.and_eq_false_iff, decide_eq_false_iff_not] at hrec
    rcases hrec with hrec | hrec
    · exact absurd (Nat.not_lt.1 hlen) hrec
    · exact absurd hrec hall

theorem feedAll_of_recognised (hrec : recognised seg) : feedAll env (newHandler env) (seg :: segs) =
      feedAll env { newHandler env with protocol := .httpV1 } (seg :: segs) := by
  rw [feedAll, feedRecvData_of_recognised hrec, feedAll]

theorem delivered_of_not_recognised (hrec : recognised seg = false) :
    (feedAll env (newHandler env) (seg :: segs)).delivered = [] := by
  rw [feedAll, feedRecvData_of_not_recognised hrec]
  rfl

theorem recognised_append (hlen : minHttpRequestLen ≤ seg.length) (rest : ByteString) :
    recognised (seg ++ rest) = recognised seg := by
  have hlen' : minHttpRequestLen ≤ (seg ++ rest).length := by
    rw [length_append]
    omega
  rw [recognised, recognised, take_append_of_le_length hlen, decide_eq_true hlen, decide_eq_true hlen']

theorem delivered_eq_whole (hreq : env.parser.isRequest (seg ++ segs.flatten))
    (hne : ∀ seg' ∈ seg :: segs, seg' ≠ []) (hlen : minHttpRequestLen ≤ seg.length) :
    (feedAll env (newHandler env) (seg :: segs)).delivered =
      (feedAll env (newHandler env) [seg ++ segs.flatten]).delivered := by
  have hrecs := recognised_append hlen segs.flatten
  cases hrec : recognised seg with
  | false =>
    rw [hrec] at hrecs
    rw [delivered_of_not_recognised hrec, delivered_of_not_recognised hrecs]
  | true =>
    rw [hrec] at hrecs
    rw [feedAll_of_recognised hrec, feedAll_of_recognised hrecs]
    obtain ⟨h₁, hfeed₁, hdel₁⟩ := delivered_feedAll (h := { newHandler env with protocol := .httpV1 })
      rfl rfl rfl hne hreq
    have hwhole : [seg ++ segs.flatten].flatten = (seg :: segs).flatten := by simp
    have hwhole_ne : ∀ seg' ∈ [seg ++ segs.flatten], seg' ≠ [] := by
      intro seg' hmem
      rw [mem_singleton.1 hmem]
      exact ne_nil_of_completes hreq
    obtain ⟨h₂, hfeed₂, hdel₂⟩ := delivered_feedAll (h := { newHandler env with protocol := .httpV1 })
      rfl rfl rfl hwhole_ne (by rw [hwhole]; exact hreq)
    rw [hwhole, hfeed₁, Option.some_inj] at hfeed₂
    rw [hdel₁, hdel₂, hfeed₂]

end

/-- A valid request that is accepted in one segment is accepted with the same request from other segments
    exactly if the first of them has at least `MIN_HTTP_REQUEST_LEN` bytes; one that is rejected in one
    segment is rejected in all. -/
theorem accepted_segmentation_iff {σ ρ : Type} (env : ServerEnv σ ρ) (s : ByteString) (segs : List ByteString)
    (hreq : env.parser.isRequest s = true) (hne : ∀ seg ∈ segs, seg ≠ []) (hsegs : segs.flatten = s) :
    ((feedAll env (newHandler env) [s]).delivered ≠ [] →
      ((feedAll env (newHandler env) segs).delivered = (feedAll env (newHandler env) [s]).delivered ↔
        minHttpRequestLen ≤ (segs.headD []).length)) ∧
    ((feedAll env (newHandler env) [s]).delivered = [] → (feedAll env (newHandler env) segs).delivered = []) := by
  subst hsegs
  cases segs with
  | nil => exact absurd rfl (ne_nil_of_completes hreq)
  | cons seg segs =>
    by_cases hlen : minHttpRequestLen ≤ seg.length
    · have heq := delivered_eq_whole hreq hne hlen
      exact ⟨fun _ => ⟨fun _ => hlen, fun _ => heq⟩, fun hrej => heq.trans hrej⟩
    · have hrec : recognised seg = false := by
        rw [recognised, decide_eq_false hlen, Bool.false_and]
      rw [delivered_of_not_recognised hrec]
      exact ⟨fun hacc => ⟨fun h => absurd h.symm hacc, fun h => absurd h hlen⟩, fun _ => rfl⟩

/-! ## A parser for one request -/

/-- The parser that accepts the bytes of a script, again and again, with the events of each byte. -/
def scriptParser (script : List (UInt8 × List ParserEvent)) : VendoredParser Nat where
  init := 0
  next pos b := (script[pos]?).bind fun entry =>
    if entry.1 = b then some (if pos + 1 = script.length then 0 else pos + 1, entry.2) else none

/-- `GET / HTTP/1.1`, without headers -/
def getScript : List (UInt8 × List ParserEvent) :=
  (71, [.notice .messageBegin]) :: (ascii "ET ").map (·, []) ++ (47, [.data .url [47]]) ::
    (ascii " HTTP/1.1\r\n\r").map (·, []) ++ [(10, [.notice (.headersComplete 1 1 1), .notice .messageComplete])]

def getEnv : ServerEnv Nat ByteString where
  parser := scriptParser getScript
  ssl := false
  parseCookie := fun _ => none
  parseUrl := id
  headerHandler := none
  route := id
  handling := fun _ => .sync
  respond := fun req => req.url
  upgradeResponse := fun _ => []
  errorResponse := fun _ => []

theorem accepted_segmentation_get :
    getEnv.parser.isRequest (ascii "GET / HTTP/1.1\r\n\r\n") = true ∧
    ((feedAll getEnv (newHandler getEnv) [ascii "GET / HTTP/1.1\r\n\r\n"]).delivered ≠ [] →
      ((feedAll getEnv (newHandler getEnv) [ascii "GET / HTTP/1.1", ascii "\r\n\r\n"]).delivered =
          (feedAll getEnv (newHandler getEnv) [ascii "GET / HTTP/1.1\r\n\r\n"]).delivered ↔
        minHttpRequestLen ≤ 14)) ∧
    ((feedAll getEnv (newHandler getEnv) [ascii "GET / HTTP/1.1\r\n\r\n"]).delivered = [] →
      (feedAll getEnv (newHandler getEnv) [ascii "GET / HTTP/1.1", ascii "\r\n\r\n"]).delivered = []) :=
  ⟨by decide, accepted_segmentation_iff getEnv (ascii "GET / HTTP/1.1\r\n\r\n")
    [ascii "GET / HTTP/1.1", ascii "\r\n\r\n"] (by decide) (by decide) (by decide)⟩

/-- A request whose first byte comes alone is rejected, though it is accepted in one segment. -/
theorem lone_first_byte_rejected : getEnv.parser.isRequest (ascii "GET / HTTP/1.1\r\n\r\n") = true ∧
    [ascii "G", ascii "ET / HTTP/1.1\r\n\r\n"].flatten = ascii "GET / HTTP/1.1\r\n\r\n" ∧
    (feedAll getEnv (newHandler getEnv) [ascii "GET / HTTP/1.1\r\n\r\n"]).delivered.length = 1 ∧
    (feedAll getEnv (newHandler getEnv) [ascii "G", ascii "ET / HTTP/1.1\r\n\r\n"]).delivered.length = 0 := by
  refine ⟨by decide, by decide, by decide, by decide⟩

end HvVerified.Http.Proofs
