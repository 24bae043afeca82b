import HvVerified.Http.Message

/-!
# What filling in a message keeps

The functions that make the text of a message also write to it: they add headers and turn structured
content into a body. None of them touches `Transfer-Encoding`, and without structured content the body
stays as it is.
-/

namespace HvVerified.Http.Proofs

open Base Http List HttpHeaders HttpMessage
open Lib (crlf)

variable {m m' : HttpMessage} (date : ByteString)

/-- What the functions that fill in a message leave alone. -/
structure Refilled (m m' : HttpMessage) : Prop where
  encoding : m'.headers.get (ascii "Transfer-Encoding") = m.headers.get (ascii "Transfer-Encoding")
  content : m'.content = m.content
  json : m'.json = m.json
  form : m'.form = m.form
  kv : m'.kv = m.kv
  body : m.json = none → m.form = none → m.kv = none → m'.body = m.body

theorem Refilled.refl (m : HttpMessage) : Refilled m m := ⟨rfl, rfl, rfl, rfl, rfl, fun _ _ _ => rfl⟩

theorem Refilled.trans {m'' : HttpMessage} (h : Refilled m m') (h' : Refilled m' m'') : Refilled m m'' := by
  refine ⟨h'.encoding.trans h.encoding, h'.content.trans h.content, h'.json.trans h.json, h'.form.trans h.form,
    h'.kv.trans h.kv, fun hjson hform hkv => ?_⟩
  rw [h'.body (h.json.trans hjson) (h.form.trans hform) (h.kv.trans hkv), h.body hjson hform hkv]

theorem Refilled.isChunked (h : Refilled m m') : m'.isChunked = m.isChunked := by
  rw [HttpMessage.isChunked, h.encoding, HttpMessage.isChunked]

theorem refilled_setHeader {key : ByteString} (hkey : foldCase (ascii "Transfer-Encoding") ≠ foldCase key)
    (value : ByteString) : Refilled m (m.setHeader key value) :=
  ⟨get_set_of_ne hkey value m.headers, rfl, rfl, rfl, rfl, fun _ _ _ => rfl⟩

theorem refilled_appendBoundary : Refilled m m.appendBoundary := by
  unfold appendBoundary
  split_ifs
  · split
    · split_ifs
      · exact refilled_setHeader (by decide) _
      · exact Refilled.refl m
    · exact Refilled.refl m
  · exact Refilled.refl m

theorem refilled_fillContentType : Refilled m m.fillContentType := by
  have htype : ∀ type, Refilled m { m with contentType := type } := fun type =>
    ⟨rfl, rfl, rfl, rfl, rfl, fun _ _ _ => rfl⟩
  unfold fillContentType
  split
  · exact (htype _).trans refilled_appendBoundary
  · dsimp only
    split_ifs
    all_goals first
      | exact (htype _).trans refilled_appendBoundary
      | exact ((htype _).trans (refilled_setHeader (by decide) _)).trans refilled_appendBoundary

theorem dumpBody_of_body (h : m.body ≠ []) : m.dumpBody = m := if_pos h

theorem refilled_dumpBody : Refilled m m.dumpBody := by
  have htype := refilled_fillContentType (m := m)
  have hbody : ∀ body, (m.json = none → m.form = none → m.kv = none → body = m.body) →
      Refilled m { m.fillContentType with body := body } := fun body h =>
    ⟨htype.encoding, htype.content, htype.json, htype.form, htype.kv, h⟩
  unfold dumpBody
  split_ifs with h
  · exact Refilled.refl m
  have hempty : m.body = [] := not_not.1 h
  dsimp only
  split
  · exact hbody _ fun hjson _ _ => by rw [htype.json, hjson, hempty]; rfl
  · split
    · split
      · exact hbody _ fun _ hform _ => by rw [htype.form, hform, hempty]; rfl
      · exact htype
    · exact htype
  · exact hbody _ fun _ _ hkv => by rw [htype.kv, hkv, hempty]; rfl
  · exact htype

theorem refilled_computeContentLength : Refilled m m.computeContentLength := by
  have hlength : ∀ (m' : HttpMessage) (n : Nat), Refilled m' { m' with contentLength := n } := fun m' n =>
    ⟨rfl, rfl, rfl, rfl, rfl, fun _ _ _ => rfl⟩
  have hbody : ∀ m' : HttpMessage,
      Refilled m' (if m'.contentLength = 0 then
        { m'.dumpBody with contentLength := m'.dumpBody.body.length } else m') := by
    intro m'
    split_ifs
    · exact refilled_dumpBody.trans (hlength _ _)
    · exact Refilled.refl m'
  unfold computeContentLength
  split
  · exact (hlength m _).trans (hbody _)
  · exact hbody m

theorem refilled_fillContentLength : Refilled m m.fillContentLength := by
  unfold fillContentLength
  dsimp only
  split_ifs
  · exact refilled_computeContentLength.trans (refilled_setHeader (by decide) _)
  · exact refilled_computeContentLength

theorem refilled_dumped_headers : Refilled m (m.dumped date true false) :=
  (refilled_setHeader (by decide) date).trans (refilled_fillContentType.trans refilled_fillContentLength)

theorem bodyText_fillBody_of_body (hcontent : m.content = none) (hbody : m.body ≠ []) :
    m.fillBody.bodyText = m.body := by
  have hlength : m.body.length ≠ 0 := by simpa using hbody
  have hfill : m.content = none ∧ m.body ≠ [] := ⟨hcontent, hbody⟩
  unfold fillBody fillContent
  rw [dumpBody_of_body hbody, if_pos hfill, if_neg hlength]
  exact take_length

theorem bodyText_fillBody_of_empty (hcontent : m.content = none) (hbody : m.dumpBody.body = []) :
    m.fillBody.bodyText = [] := by
  have hnone : m.dumpBody.content = none := (refilled_dumpBody (m := m)).content.trans hcontent
  unfold fillBody fillContent
  dsimp only
  rw [if_neg (show ¬ (m.dumpBody.content = none ∧ m.dumpBody.body ≠ []) from fun h => h.2 hbody)]
  split_ifs
  · rw [bodyText, (refilled_fillContentLength (m := m.dumpBody)).content, hnone]
    exact take_nil
  · rw [bodyText, hnone]
    exact take_nil

theorem bodyText_dumped (isDumpHeaders : Bool) (hjson : m.json = none) (hform : m.form = none)
    (hkv : m.kv = none) (hcontent : m.content = none) : (m.dumped date isDumpHeaders true).bodyText = m.body := by
  have htext : ∀ m' : HttpMessage, Refilled m m' → m'.fillBody.bodyText = m.body := by
    intro m' h
    have hbody := h.body hjson hform hkv
    by_cases hempty : m'.body = []
    · have hdump := (h.trans refilled_dumpBody).body hjson hform hkv
      rw [← hbody, hempty] at hdump
      rw [bodyText_fillBody_of_empty (h.content.trans hcontent) hdump, ← hbody, hempty]
    · rw [bodyText_fillBody_of_body (h.content.trans hcontent) hempty, hbody]
  cases isDumpHeaders with
  | true => exact htext _ (refilled_dumped_headers date)
  | false => exact htext m (Refilled.refl m)

/-! ## The headers of a message whose length is known -/

/-- What `FillContentType` does to a message without a `Content-Type` header. -/
structure TypeFilled (m m' : HttpMessage) : Prop where
  headers : ∀ key, foldCase key ≠ foldCase (ascii "Content-Type") → m'.headers.get key = m.headers.get key
  contentType : m'.contentType = m.contentType
  contentLength : m'.contentLength = m.contentLength
  type : m'.type = m.type

theorem TypeFilled.trans {m'' : HttpMessage} (h : TypeFilled m m') (h' : TypeFilled m' m'') : TypeFilled m m'' :=
  ⟨fun key hkey => (h'.headers key hkey).trans (h.headers key hkey), h'.contentType.trans h.contentType,
    h'.contentLength.trans h.contentLength, h'.type.trans h.type⟩

theorem typeFilled_setHeader (m : HttpMessage) (value : ByteString) :
    TypeFilled m (m.setHeader (ascii "Content-Type") value) :=
  ⟨fun _ hkey => get_set_of_ne hkey value m.headers, rfl, rfl, rfl⟩

theorem typeFilled_appendBoundary (m : HttpMessage) : TypeFilled m m.appendBoundary := by
  have hrefl : TypeFilled m m := ⟨fun _ _ => rfl, rfl, rfl, rfl⟩
  unfold appendBoundary
  split_ifs
  · split
    · split_ifs
      · exact typeFilled_setHeader m _
      · exact hrefl
    · exact hrefl
  · exact hrefl

theorem typeFilled_fillContentType (hheader : m.headers.get (ascii "Content-Type") = none)
    (htype : m.contentType ≠ .none) : TypeFilled m m.fillContentType := by
  unfold fillContentType
  rw [hheader]
  dsimp only
  rw [if_neg htype, if_neg htype]
  exact (typeFilled_setHeader m _).trans (typeFilled_appendBoundary _)

/-- A message whose length is known when its headers are dumped. -/
structure LengthKnown (m : HttpMessage) : Prop where
  contentLength : m.headers.get (ascii "Content-Length") = none
  contentTypeHeader : m.headers.get (ascii "Content-Type") = none
  notChunked : m.isChunked = false
  known : m.contentLength ≠ 0
  contentType : m.contentType ≠ .none

/-- The headers are filled in with the type and the length; an event stream has no length. -/
theorem LengthKnown.dumped_eq (h : LengthKnown m) (date : ByteString) :
    ∃ m₁, TypeFilled (m.setHeader (ascii "Date") date) m₁ ∧
      m.dumped date true false = if m.contentType = .textEventStream then m₁
        else m₁.setHeader (ascii "Content-Length") (decimal m.contentLength) := by
  have hdate : ∀ key, foldCase key ≠ foldCase (ascii "Date") →
      (m.setHeader (ascii "Date") date).headers.get key = m.headers.get key :=
    fun key hkey => get_set_of_ne hkey date m.headers
  have hfill := typeFilled_fillContentType (m := m.setHeader (ascii "Date") date)
    ((hdate _ (by decide)).trans h.contentTypeHeader) h.contentType
  obtain ⟨m₁, hm₁⟩ : ∃ m₁, m₁ = (m.setHeader (ascii "Date") date).fillContentType := ⟨_, rfl⟩
  rw [← hm₁] at hfill
  have hnone : m₁.headers.get (ascii "Content-Length") = none := by
    rw [hfill.headers _ (by decide), hdate _ (by decide), h.contentLength]
  have hlen : m₁.contentLength = m.contentLength := hfill.contentLength
  have hct : m₁.contentType = m.contentType := hfill.contentType
  have hchunked : m₁.isChunked = false := by
    rw [hm₁, refilled_fillContentType.isChunked, (refilled_setHeader (by decide) date).isChunked, h.notChunked]
  have hcompute : m₁.computeContentLength = m₁ := by
    unfold computeContentLength
    rw [hnone]
    exact if_neg (hlen ▸ h.known)
  refine ⟨m₁, hfill, ?_⟩
  have hdumped : m.dumped date true false = m₁.fillContentLength := by rw [hm₁]; rfl
  rw [hdumped, fillContentLength, hcompute]
  by_cases hstream : m.contentType = .textEventStream
  · rw [if_neg (by simp [hct, hstream]), if_pos hstream]
  · rw [if_pos ⟨hnone, hchunked, by rw [hct]; exact hstream, .inl (hlen ▸ h.known)⟩, if_neg hstream, hlen]

theorem LengthKnown.get_contentLength (h : LengthKnown m) (date : ByteString) :
    (m.dumped date true false).headers.get (ascii "Content-Length") =
      if m.contentType = .textEventStream then none else some (decimal m.contentLength) := by
  obtain ⟨m₁, hfill, hdumped⟩ := h.dumped_eq date
  rw [hdumped]
  split_ifs
  · rw [hfill.headers _ (by decide)]
    exact (get_set_of_ne (by decide) date m.headers).trans h.contentLength
  · exact get_set_self _ _ _

theorem LengthKnown.get_of_ne (h : LengthKnown m) (date : ByteString) {key : ByteString}
    (hdate : foldCase key ≠ foldCase (ascii "Date")) (htype : foldCase key ≠ foldCase (ascii "Content-Type"))
    (hlength : foldCase key ≠ foldCase (ascii "Content-Length")) :
    (m.dumped date true false).headers.get key = m.headers.get key := by
  obtain ⟨m₁, hfill, hdumped⟩ := h.dumped_eq date
  have hget : m₁.headers.get key = m.headers.get key :=
    (hfill.headers _ htype).trans (get_set_of_ne hdate date m.headers)
  rw [hdumped]
  split_ifs
  · exact hget
  · exact (get_set_of_ne hlength _ m₁.headers).trans hget

theorem LengthKnown.contentLength_dumped (h : LengthKnown m) (date : ByteString) :
    (m.dumped date true false).contentLength = m.contentLength ∧ (m.dumped date true false).type = m.type := by
  obtain ⟨m₁, hfill, hdumped⟩ := h.dumped_eq date
  rw [hdumped]
  split_ifs
  · exact ⟨hfill.contentLength, hfill.type⟩
  · exact ⟨hfill.contentLength, hfill.type⟩

theorem headers_dumped_body (hjson : m.json = none) (hform : m.form = none) (hkv : m.kv = none)
    (hcontent : m.content = none) (hbody : m.body ≠ []) :
    (m.dumped date true true).headers = (m.dumped date true false).headers := by
  have hrefilled := refilled_dumped_headers (m := m) date
  obtain ⟨m₁, hm₁⟩ : ∃ m₁, m₁ = m.dumped date true false := ⟨_, rfl⟩
  rw [← hm₁] at hrefilled ⊢
  have hbody₁ : m₁.body ≠ [] := by
    rw [hrefilled.body hjson hform hkv]
    exact hbody
  have hdumped : m.dumped date true true = m₁.fillBody := by rw [hm₁]; rfl
  have hlength : m₁.body.length ≠ 0 := by simpa using hbody₁
  have hfill : m₁.content = none ∧ m₁.body ≠ [] := ⟨hrefilled.content.trans hcontent, hbody₁⟩
  rw [hdumped]
  unfold fillBody fillContent
  rw [dumpBody_of_body hbody₁, if_pos hfill, if_neg hlength]

theorem foldl_dumpHeader_eq (headers : HttpHeaders) (str : ByteString) :
    ∃ tail, headers.foldl dumpHeader str = str ++ tail := by
  induction headers generalizing str with
  | nil => exact ⟨[], (append_nil str).symm⟩
  | cons header headers ih =>
    obtain ⟨tail, htail⟩ := ih (dumpHeader str header)
    rw [foldl_cons, htail]
    unfold dumpHeader
    split_ifs
    · exact ⟨tail, rfl⟩
    · simp only [append_assoc]
      exact ⟨_, rfl⟩

theorem dumpHead_eq (isDumpHeaders : Bool) : ∃ tail, m.dumpHead date isDumpHeaders = m.statusLine ++ tail := by
  unfold dumpHead headerLines
  cases isDumpHeaders with
  | true =>
    obtain ⟨tail, htail⟩ := foldl_dumpHeader_eq (m.setHeader (ascii "Date") date).fillHeaders.headers m.statusLine
    rw [if_pos rfl, htail]
    simp only [append_assoc]
    exact ⟨_, rfl⟩
  | false => exact ⟨crlf, rfl⟩

end HvVerified.Http.Proofs
