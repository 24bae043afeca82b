import HvVerified.Http.ResponseWriter
import HvVerified.Http.Proofs.MessageProofs

/-!
# Streaming a body in chunks

The strings given to `WriteChunked` between `Begin` and `End` are read back by a chunked decoder, if
there is at least one and none of them is empty. An empty string writes the last chunk early, and `End`
then dumps the response once more; without any string `End` sends a body that is not chunked.
-/

namespace HvVerified.Http.Proofs

open Base Http HttpResponseWriter List SendState HttpMessage
open Lib (crlf hex chunk decodeChunked)

variable {hd d date : ByteString} {rest : List Part} {chunks : List (ByteString × ByteString)}
  {last : Option ByteString} {w₁ : HttpResponseWriter} {w w' : HttpResponseWriter} {ps qs : List Part}
  {bytes : ByteString}

def chunkCalls (chunks : List (ByteString × ByteString)) : List (ByteString × WriterCall) :=
  chunks.map fun c => (c.1, .writeChunked c.2)

/-- The bytes after the header block are the chunked coding of the strings, and nothing follows it. -/
def FaithfulStream (w : HttpResponseWriter) (chunks : List (ByteString × ByteString)) (date : ByteString)
    (last : Option ByteString) : Prop :=
  ∃ hd rest, respond w (chunkCalls chunks) date last = .head true hd :: rest ∧
    decodeChunked (rest.flatMap Part.bytes) = some ((chunks.map Prod.snd).flatten ++ last.getD [], [])

/-- A response without content of its own, whatever its status and headers. -/
structure Contentless (m : HttpMessage) : Prop where
  body : m.body = []
  content : m.content = none
  json : m.json = none
  form : m.form = none
  kv : m.kv = none

/-! ## What the calls write -/

/-- A call that writes `ps` and leaves the connection and the field `end` alone. -/
structure Sends (w w' : HttpResponseWriter) (ps : List Part) : Prop where
  connected : w'.connected = w.connected
  endState : w'.endState = w.endState
  out : w.connected → w'.out = w.out ++ ps

theorem Sends.nothing (w : HttpResponseWriter) : Sends w w [] := ⟨rfl, rfl, fun _ => (append_nil _).symm⟩

theorem Sends.trans {w'' : HttpResponseWriter} (h : Sends w w' ps) (h' : Sends w' w'' qs) : Sends w w'' (ps ++ qs) := by
  refine ⟨h'.connected.trans h.connected, h'.endState.trans h.endState, fun hconn => ?_⟩
  rw [h'.out (h.connected.trans hconn), h.out hconn, append_assoc]

theorem sends_write (w : HttpResponseWriter) (ps : List Part) : Sends w (w.write ps) ps := by
  unfold write
  split_ifs with hconn
  · exact ⟨rfl, rfl, fun _ => rfl⟩
  · exact ⟨rfl, rfl, fun h => absurd h hconn⟩

theorem Sends.update (h : Sends w w' ps) (state : SendState) (response : HttpMessage) :
    Sends w { w' with state := state, response := response } ps := ⟨h.connected, h.endState, h.out⟩

@[simp] theorem write_state (w : HttpResponseWriter) (ps : List Part) : (w.write ps).state = w.state := by
  unfold write
  split_ifs <;> rfl

@[simp] theorem write_response (w : HttpResponseWriter) (ps : List Part) : (w.write ps).response = w.response := by
  unfold write
  split_ifs <;> rfl

theorem endHeaders_spec (h : w.state = .begin) (date : ByteString) (header : Option (ByteString × ByteString)) :
    (∃ hd, Sends w (w.endHeaders date header) [.head true hd]) ∧ (w.endHeaders date header).state = .header ∧
      (w.endHeaders date header).response =
        (header.elim w.response fun h => w.response.setHeader h.1 h.2).dumped date true false := by
  have hnot : ¬ w.state ≠ .begin := not_not.2 h
  unfold endHeaders
  rw [if_neg hnot]
  exact ⟨⟨_, ((Sends.nothing w).update _ _).trans (sends_write _ _)⟩, by simp, by simp⟩

def chunkParts (data : ByteString) : List Part :=
  [.body (hex data.length ++ crlf)] ++ (if data ≠ [] then [.body data] else []) ++ [.body crlf]

theorem writeChunked_spec (h : w.state ≠ .begin) (date : ByteString) (buf : Option ByteString) :
    Sends w (w.writeChunked date buf) (chunkParts (chunkData buf)) ∧
      (w.writeChunked date buf).state = (if chunkData buf ≠ [] then .chunked else .chunkedEnd) ∧
      (w.writeChunked date buf).response = w.response := by
  have hsize := sends_write w [.body (hex (chunkData buf).length ++ crlf)]
  unfold writeChunked chunkParts
  rw [if_neg h]
  by_cases hdata : chunkData buf ≠ []
  · simp only [if_pos hdata]
    exact ⟨((hsize.update _ _).trans (sends_write _ _)).trans (sends_write _ _), by simp, by simp⟩
  · simp only [if_neg hdata, append_nil]
    exact ⟨(hsize.update _ _).trans (sends_write _ _), by simp, by simp⟩

theorem writeChunked_begin (h : w.state = .begin) (date : ByteString) (buf : Option ByteString) :
    w.writeChunked date buf =
      (w.endHeaders date (some (ascii "Transfer-Encoding", ascii "chunked"))).writeChunked date buf := by
  obtain ⟨-, hstate, -⟩ := endHeaders_spec h date (some (ascii "Transfer-Encoding", ascii "chunked"))
  have hnot : (w.endHeaders date (some (ascii "Transfer-Encoding", ascii "chunked"))).state ≠ .begin := by
    simp [hstate]
  conv_rhs => unfold writeChunked
  unfold writeChunked
  rw [if_pos h, if_neg hnot]

theorem sends_writeChunked (w : HttpResponseWriter) (date : ByteString) (buf : Option ByteString) :
    ∃ ps, Sends w (w.writeChunked date buf) ps := by
  by_cases h : w.state = .begin
  · obtain ⟨⟨hd, hsends⟩, hstate, -⟩ := endHeaders_spec h date (some (ascii "Transfer-Encoding", ascii "chunked"))
    rw [writeChunked_begin h]
    exact ⟨_, hsends.trans (writeChunked_spec (by simp [hstate]) date buf).1⟩
  · exact ⟨_, (writeChunked_spec h date buf).1⟩

theorem endState_chunkCalls (w : HttpResponseWriter) (chunks : List (ByteString × ByteString)) :
    (writerRun w (chunkCalls chunks)).endState = w.endState := by
  induction chunks generalizing w with
  | nil => rfl
  | cons c chunks ih =>
    obtain ⟨ps, hsends⟩ := sends_writeChunked w c.1 (some c.2)
    exact (ih _).trans hsends.endState

theorem running_chunkCalls (w : HttpResponseWriter) (chunks : List (ByteString × ByteString)) :
    (writerRun { w.sendBegin with out := [] } (chunkCalls chunks)).endState ≠ .ended := by
  rw [endState_chunkCalls]
  simp [sendBegin]

theorem sendEnd_out (hrun : w.endState ≠ .ended) (hconn : w.connected) (date : ByteString)
    (last : Option ByteString) : (w.sendEnd date last).out = (if w.state = chunked
      then { w with endState := .ended }.endOfChunks date last
      else { w with endState := .ended }.endOfBody date last).out := by
  unfold sendEnd
  rw [if_neg hrun, if_neg (by simp [hconn])]
  dsimp only
  split_ifs <;> rfl

/-! ## Streams -/

theorem flatMap_bytes_chunkParts (data : ByteString) : (chunkParts data).flatMap Part.bytes = chunk data := by
  unfold chunkParts
  split_ifs with h
  · simp [Part.bytes, chunk]
  · have hnil : data = [] := not_not.1 h
    simp [Part.bytes, chunk, hnil]

theorem chunkData_some {buf : ByteString} (h : buf.length < 2 ^ 31) : chunkData (some buf) = buf := by
  have hlen : intLen buf = buf.length := Nat.mod_eq_of_lt (by omega)
  rw [chunkData, Option.elim, hlen, take_length]

theorem chunk_ne_nil (d : ByteString) : chunk d ≠ [] := by simp [chunk, crlf]

/-- The writer after the header block, with `bytes` written after it. -/
structure Streaming (w : HttpResponseWriter) (bytes : ByteString) : Prop where
  connected : w.connected
  state : w.state = .chunked ∨ w.state = .chunkedEnd
  isChunked : w.response.isChunked
  out : ∃ hd rest, w.out = .head true hd :: rest ∧ rest.flatMap Part.bytes = bytes

theorem Streaming.ne_begin (h : Streaming w bytes) : w.state ≠ .begin := by
  rcases h.state with hs | hs <;> simp [hs]

theorem out_append (ho : w.out = .head true hd :: rest)
    (hb : rest.flatMap Part.bytes = bytes) (ho' : w'.out = w.out ++ ps) :
    ∃ hd rest, w'.out = .head true hd :: rest ∧ rest.flatMap Part.bytes = bytes ++ ps.flatMap Part.bytes :=
  ⟨hd, rest ++ ps, by rw [ho', ho]; rfl, by rw [flatMap_append, hb]⟩

theorem chunked_or_chunkedEnd (data : ByteString) : (if data ≠ [] then chunked else chunkedEnd) = .chunked ∨
      (if data ≠ [] then chunked else chunkedEnd) = .chunkedEnd := by
  split_ifs <;> simp

theorem streaming_writeChunked (h : Streaming w bytes) (date : ByteString) {buf : Option ByteString}
    (hd : chunkData buf = d) : Streaming (w.writeChunked date buf) (bytes ++ chunk d) ∧
      (w.writeChunked date buf).state = (if d ≠ [] then .chunked else .chunkedEnd) := by
  subst hd
  obtain ⟨hsends, hstate, hresponse⟩ := writeChunked_spec h.ne_begin date buf
  obtain ⟨head, rest, ho, hb⟩ := h.out
  refine ⟨⟨hsends.connected.trans h.connected, ?_, ?_, ?_⟩, hstate⟩
  · rw [hstate]
    exact chunked_or_chunkedEnd _
  · rw [hresponse]
    exact h.isChunked
  · rw [← flatMap_bytes_chunkParts]
    exact out_append ho hb (hsends.out h.connected)

theorem streaming_first (hconn : w.connected) (hbegin : w.state = .begin) (hout : w.out = []) (date : ByteString)
    (hd : d.length < 2 ^ 31) : Streaming (w.writeChunked date (some d)) (chunk d) ∧
      (w.writeChunked date (some d)).state = (if d ≠ [] then .chunked else .chunkedEnd) := by
  obtain ⟨⟨head, hsends⟩, hstate, hresponse⟩ :=
    endHeaders_spec hbegin date (some (ascii "Transfer-Encoding", ascii "chunked"))
  rw [writeChunked_begin hbegin]
  generalize w.endHeaders date (some (ascii "Transfer-Encoding", ascii "chunked")) = w₁ at hsends hstate hresponse
  have hne : w₁.state ≠ .begin := by simp [hstate]
  have hchunked : w₁.response.isChunked := by
    rw [hresponse, (refilled_dumped_headers date).isChunked, Option.elim, isChunked, setHeader,
      HttpHeaders.get_set_self]
    decide
  obtain ⟨hsends', hstate', hresponse'⟩ := writeChunked_spec hne date (some d)
  rw [chunkData_some hd] at hsends' hstate'
  refine ⟨⟨(hsends'.connected.trans hsends.connected).trans hconn, ?_, ?_, head, chunkParts d, ?_, ?_⟩, hstate'⟩
  · rw [hstate']
    exact chunked_or_chunkedEnd d
  · rw [hresponse']
    exact hchunked
  · rw [(hsends.trans hsends').out hconn, hout]
    rfl
  · exact flatMap_bytes_chunkParts d

theorem streaming_run (h : Streaming w bytes) (hlen : ∀ c ∈ chunks, c.2.length < 2 ^ 31) :
    Streaming (writerRun w (chunkCalls chunks)) (bytes ++ (chunks.map Prod.snd).flatMap chunk) ∧
      (w.state = .chunked → (∀ c ∈ chunks, c.2 ≠ []) → (writerRun w (chunkCalls chunks)).state = .chunked) := by
  induction chunks generalizing w bytes with
  | nil =>
    refine ⟨?_, fun hs _ => hs⟩
    simpa [chunkCalls, writerRun] using h
  | cons c chunks ih =>
    obtain ⟨h', hstate⟩ := streaming_writeChunked h c.1 (chunkData_some (hlen c mem_cons_self))
    obtain ⟨hrun, hstate'⟩ := ih h' fun x hx => hlen x (mem_cons_of_mem c hx)
    rw [map_cons, flatMap_cons, ← append_assoc]
    refine ⟨hrun, fun _ hne => hstate' ?_ fun x hx => hne x (mem_cons_of_mem c hx)⟩
    rw [hstate, if_pos (hne c mem_cons_self)]

/-! ## `End` -/

/-- What `End(last)` adds to a stream that is open: the last string, if it is not empty, and the last chunk. -/
def endChunks (last : Option ByteString) : ByteString :=
  ((last.toList.filter (· ≠ [])).flatMap chunk) ++ chunk []

theorem streaming_endOfChunks (h : Streaming w bytes) (hs : w.state = .chunked) (date : ByteString)
    (hlen : ∀ d, last = some d → d.length < 2 ^ 31) :
    Streaming (w.endOfChunks date last) (bytes ++ endChunks last) := by
  unfold endOfChunks
  dsimp only
  cases last with
  | none =>
    rw [Option.elim, if_pos hs]
    exact (streaming_writeChunked h date rfl).1
  | some d =>
    obtain ⟨h', hstate⟩ := streaming_writeChunked h date (chunkData_some (hlen d rfl))
    rw [Option.elim, hstate]
    by_cases hd : d = []
    · subst hd
      simpa [endChunks] using h'
    · have hend : Streaming ((w.writeChunked date (some d)).endChunked date) (bytes ++ chunk d ++ chunk []) :=
        (streaming_writeChunked h' date rfl).1
      simpa [endChunks, hd, append_assoc] using hend

theorem flatMap_bytes_dump (m : HttpMessage) (date : ByteString) (isDumpHeaders : Bool) :
    ∃ tail, (m.dump date isDumpHeaders true).flatMap Part.bytes = 72 :: tail := by
  obtain ⟨tail, htail⟩ := dumpHead_eq (m := m) date isDumpHeaders
  rw [dump, flatMap_cons, Part.bytes, htail]
  exact ⟨_, rfl⟩

theorem endOfBody_out (date : ByteString)
    (hlast : last.elim w (w.writeBody date) = w₁) (hconn : w₁.connected) (hstate : w₁.state ≠ .body) :
    (w.endOfBody date last).out = w₁.out ++ w₁.response.dump date (decide (w₁.state ≠ .header)) true := by
  subst hlast
  unfold endOfBody
  generalize last.elim w (w.writeBody date) = w₁ at hconn hstate
  rw [if_neg hstate]
  exact (((Sends.nothing w₁).update _ _).trans (sends_write _ _)).out hconn

/-- A stream whose last chunk has been written gets the whole response once more. -/
theorem endOfBody_writes (h : Streaming w bytes) (date : ByteString)
    (hlen : ∀ d, last = some d → d.length < 2 ^ 31) :
    ∃ hd rest extra, (w.endOfBody date last).out = .head true hd :: rest ∧
      rest.flatMap Part.bytes = bytes ++ extra ∧ extra ≠ [] := by
  have hlast : ∃ more, Streaming (last.elim w (w.writeBody date)) (bytes ++ more) := by
    cases last with
    | none => exact ⟨[], by simpa using h⟩
    | some d =>
      rw [Option.elim, writeBody, if_pos h.isChunked]
      exact ⟨chunk d, (streaming_writeChunked h date (chunkData_some (hlen d rfl))).1⟩
  obtain ⟨more, hmore⟩ := hlast
  have hnot : (last.elim w (w.writeBody date)).state ≠ .body := by
    rcases hmore.state with hs | hs <;> simp [hs]
  have hend := endOfBody_out date rfl hmore.connected hnot
  obtain ⟨hd, rest, ho, hb⟩ := hmore.out
  obtain ⟨tail, htail⟩ := flatMap_bytes_dump (last.elim w (w.writeBody date)).response date
    (decide ((last.elim w (w.writeBody date)).state ≠ .header))
  obtain ⟨hd', rest', ho', hb'⟩ := out_append ho hb hend
  exact ⟨hd', rest', more ++ 72 :: tail, ho', by rw [hb', htail, append_assoc], by simp⟩

theorem sendEnd_writes (h : Streaming w bytes) (hrun : w.endState ≠ .ended) (date : ByteString)
    (hlen : ∀ d, last = some d → d.length < 2 ^ 31) :
    ∃ hd rest extra, (w.sendEnd date last).out = .head true hd :: rest ∧
      rest.flatMap Part.bytes = bytes ++ extra ∧ extra ≠ [] := by
  have h₀ : Streaming { w with endState := .ended } bytes := ⟨h.connected, h.state, h.isChunked, h.out⟩
  rw [sendEnd_out hrun h.connected]
  split_ifs with hs
  · obtain ⟨hd, rest, ho, hb⟩ := (streaming_endOfChunks h₀ hs date hlen).out
    exact ⟨hd, rest, endChunks last, ho, hb, by simp [endChunks, chunk_ne_nil]⟩
  · exact endOfBody_writes h₀ date hlen

/-! ## Whole streams -/

theorem streaming_chunks (hconn : w.connected) (hne : chunks ≠ []) (hlen : ∀ c ∈ chunks, c.2.length < 2 ^ 31) :
    Streaming (writerRun { w.sendBegin with out := [] } (chunkCalls chunks)) ((chunks.map Prod.snd).flatMap chunk) ∧
      ((∀ c ∈ chunks, c.2 ≠ []) →
        (writerRun { w.sendBegin with out := [] } (chunkCalls chunks)).state = .chunked) := by
  obtain ⟨c, chunks, rfl⟩ := exists_cons_of_ne_nil hne
  obtain ⟨hfirst, hstate⟩ := streaming_first (w := { w.sendBegin with out := [] }) hconn rfl rfl c.1
    (hlen c mem_cons_self)
  obtain ⟨hrun, hstate'⟩ := streaming_run hfirst fun x hx => hlen x (mem_cons_of_mem c hx)
  refine ⟨hrun, fun hdata => hstate' ?_ fun x hx => hdata x (mem_cons_of_mem c hx)⟩
  rw [hstate, if_pos (hdata c mem_cons_self)]

theorem faithful_of_nonempty (hconn : w.connected) (date : ByteString) (hlen : ∀ c ∈ chunks, c.2.length < 2 ^ 31)
    (hlast : ∀ d, last = some d → d.length < 2 ^ 31) (hne : chunks ≠ []) (hdata : ∀ c ∈ chunks, c.2 ≠ []) :
    FaithfulStream w chunks date last := by
  obtain ⟨hstream, hstate⟩ := streaming_chunks hconn hne hlen
  have hrun := running_chunkCalls w chunks
  have hs := hstate hdata
  unfold FaithfulStream respond
  generalize writerRun { w.sendBegin with out := [] } (chunkCalls chunks) = w₁ at hstream hs hrun
  have h₀ : Streaming { w₁ with endState := .ended } _ :=
    ⟨hstream.connected, hstream.state, hstream.isChunked, hstream.out⟩
  rw [sendEnd_out hrun hstream.connected, if_pos hs]
  obtain ⟨hd, rest, ho, hb⟩ := (streaming_endOfChunks h₀ hs date hlast).out
  refine ⟨hd, rest, ho, ?_⟩
  -- the strings and the last one, if it is not empty, are the chunks of the body
  have hall : ∀ d ∈ chunks.map Prod.snd ++ last.toList.filter (· ≠ []), d ≠ [] := by
    intro d hd
    rcases mem_append.1 hd with hd | hd
    · obtain ⟨c, hc, rfl⟩ := mem_map.1 hd
      exact hdata c hc
    · simpa using (mem_filter.1 hd).2
  have hbytes : rest.flatMap Part.bytes =
      (chunks.map Prod.snd ++ last.toList.filter (· ≠ [])).flatMap chunk ++ (chunk [] ++ []) := by
    rw [hb, flatMap_append, endChunks, append_nil, append_assoc]
  rw [hbytes, Lib.decodeChunked_chunks hall, flatten_append]
  congr 2
  cases last with
  | none => rfl
  | some d => by_cases hd : d = [] <;> simp [hd]

theorem not_faithful_of_empty (hconn : w.connected) (date : ByteString) (hlen : ∀ c ∈ chunks, c.2.length < 2 ^ 31)
    (hlast : ∀ d, last = some d → d.length < 2 ^ 31) (hdata : [] ∈ chunks.map Prod.snd) :
    ¬ FaithfulStream w chunks date last := by
  rintro ⟨hd, rest, hout, hdecode⟩
  have hne : chunks ≠ [] := by
    rintro rfl
    cases hdata
  obtain ⟨hstream, -⟩ := streaming_chunks hconn hne hlen
  obtain ⟨hd', rest', extra, hout', hbytes, hextra⟩ :=
    sendEnd_writes hstream (running_chunkCalls w chunks) date hlast
  obtain ⟨-, rfl⟩ := cons.inj (hout.symm.trans hout')
  -- the decoder stops at the first empty string, and more is written after it
  obtain ⟨before, after, heq, hbefore⟩ := eq_append_cons_of_mem hdata
  have hsplit : rest.flatMap Part.bytes = before.flatMap chunk ++ (chunk [] ++ (after.flatMap chunk ++ extra)) := by
    rw [hbytes, heq]
    simp
  rw [hsplit, Lib.decodeChunked_chunks fun d hd e => hbefore (e ▸ hd)] at hdecode
  have hnil : after.flatMap chunk ++ extra = [] := (Prod.ext_iff.1 (Option.some.inj hdecode)).2
  exact hextra (append_eq_nil_iff.1 hnil).2

theorem not_decode_raw {m : HttpMessage} (hcontent : m.content = none)
    (hjson : m.json = none) (hform : m.form = none) (hkv : m.kv = none)
    (hout : m.dump date true true = .head true hd :: rest) :
    decodeChunked (rest.flatMap Part.bytes) ≠ some (m.body, []) := by
  intro hdecode
  obtain ⟨-, rfl⟩ := cons.inj hout
  rw [if_pos rfl, bodyText_dumped date true hjson hform hkv hcontent] at hdecode
  have hlt := Lib.length_lt_of_decodeFrom hdecode
  simp [Part.bytes] at hlt

theorem not_decode_chunk_response (m : HttpMessage) (date d : ByteString) :
    decodeChunked (chunk d ++ (m.dump date true true).flatMap Part.bytes) ≠ some (d, []) := by
  obtain ⟨tail, htail⟩ := flatMap_bytes_dump m date true
  rw [htail]
  by_cases hd : d = []
  · subst hd
    rw [Lib.decodeChunked_last]
    simp
  · rw [Lib.decodeChunked_chunk hd]
    -- the `H` of the status line is not a digit
    have hnone : decodeChunked (72 :: tail) = none := rfl
    simp [hnone]

theorem not_decode_endOfBody_raw (hconn : w₁.connected) (hbegin : w₁.state = .begin)
    (hw : w₁.out = []) (hcontent : w₁.response.content = none) (hjson : w₁.response.json = none)
    (hform : w₁.response.form = none) (hkv : w₁.response.kv = none)
    (hlast : last.elim w (w.writeBody date) = w₁) (hbody : w₁.response.body = last.getD [])
    (hout : (w.endOfBody date last).out = .head true hd :: rest) :
    decodeChunked (rest.flatMap Part.bytes) ≠ some (last.getD [], []) := by
  have hheader : decide (w₁.state ≠ .header) := by simp [hbegin]
  rw [endOfBody_out date hlast hconn (by simp [hbegin]), hw, nil_append, hheader] at hout
  rw [← hbody]
  exact not_decode_raw hcontent hjson hform hkv hout

theorem not_decode_endOfBody (hconn : w.connected) (hbegin : w.state = .begin) (hw : w.out = [])
    (hm : Contentless w.response) (date : ByteString) (hlen : ∀ d, last = some d → d.length < 2 ^ 31)
    (hout : (w.endOfBody date last).out = .head true hd :: rest) :
    decodeChunked (rest.flatMap Part.bytes) ≠ some (last.getD [], []) := by
  cases last with
  | none =>
    have hlast : (none : Option ByteString).elim w (w.writeBody date) = w := rfl
    exact not_decode_endOfBody_raw hconn hbegin hw hm.content hm.json hm.form hm.kv hlast hm.body hout
  | some d =>
    have hd := hlen d rfl
    by_cases hchunked : w.response.isChunked
    · obtain ⟨hfirst, -⟩ := streaming_first hconn hbegin hw date hd
      have hlast : (some d).elim w (w.writeBody date) = w.writeChunked date (some d) := if_pos hchunked
      have hstate : (w.writeChunked date (some d)).state ≠ .body ∧ (w.writeChunked date (some d)).state ≠ .header := by
        rcases hfirst.state with hs | hs <;> simp [hs]
      obtain ⟨hd', rest', ho', hb'⟩ := hfirst.out
      rw [endOfBody_out date hlast hfirst.connected hstate.1, ho', decide_eq_true hstate.2, cons_append] at hout
      obtain ⟨-, rfl⟩ := cons.inj hout
      rw [flatMap_append, hb']
      exact not_decode_chunk_response _ date d
    · have hlast : (some d).elim w (w.writeBody date) =
          { w with response := { w.response with body := w.response.body ++ d.take (intLen d) } } :=
        (if_neg hchunked).trans (if_pos hbegin)
      have htake : d.take (intLen d) = d := chunkData_some hd
      refine not_decode_endOfBody_raw ?_ ?_ ?_ ?_ ?_ ?_ ?_ hlast ?_ hout
      · exact hconn
      · exact hbegin
      · exact hw
      · exact hm.content
      · exact hm.json
      · exact hm.form
      · exact hm.kv
      · show w.response.body ++ d.take (intLen d) = d
        rw [hm.body, htake, nil_append]

theorem not_faithful_nil (hconn : w.connected) (hm : Contentless w.response) (date : ByteString)
    (hlen : ∀ d, last = some d → d.length < 2 ^ 31) : ¬ FaithfulStream w [] date last := by
  rintro ⟨hd, rest, hout, hdecode⟩
  have hend : respond w (chunkCalls []) date last =
      ({ w.sendBegin with out := [], endState := .ended }.endOfBody date last).out :=
    (sendEnd_out (w := { w.sendBegin with out := [] }) (by simp [sendBegin]) hconn date last).trans
      (congrArg out (if_neg (by simp [sendBegin])))
  rw [hend] at hout
  exact not_decode_endOfBody (w := { w.sendBegin with out := [], endState := .ended }) hconn rfl rfl hm date hlen hout
    hdecode

/-- The strings given to `WriteChunked`, with the one given to `End`, are what a chunked decoder reads
    after the header block, up to the last byte written, if there is at least one string before `End` and
    none of them is empty; for a response without content of its own also only if. The strings are those
    whose length an `int` can hold. -/
theorem chunked_stream_faithful (w : HttpResponseWriter) (hconn : w.connected = true)
    (chunks : List (ByteString × ByteString)) (date : ByteString) (last : Option ByteString)
    (hlen : ∀ c ∈ chunks, c.2.length < 2 ^ 31) (hlast : ∀ d, last = some d → d.length < 2 ^ 31) :
    (chunks ≠ [] ∧ (∀ c ∈ chunks, c.2 ≠ []) → FaithfulStream w chunks date last) ∧
      (Contentless w.response → FaithfulStream w chunks date last → chunks ≠ [] ∧ ∀ c ∈ chunks, c.2 ≠ []) := by
  refine ⟨fun h => faithful_of_nonempty hconn date hlen hlast h.1 h.2, fun hm h => ⟨?_, fun c hc hempty => ?_⟩⟩
  · rintro rfl
    exact not_faithful_nil hconn hm date hlast h
  · exact not_faithful_of_empty hconn date hlen hlast (mem_map.2 ⟨c, hc, hempty⟩) h

/-- `WriteChunked("hello")`, `WriteChunked(" ")`, `End("world")` -/
theorem chunked_stream_faithful_hello :
    (∀ c ∈ [(ascii "now", ascii "hello"), (ascii "now", ascii " ")], c.2.length < 2 ^ 31 ∧ c.2 ≠ []) ∧
      FaithfulStream (newWriter newResponse) [(ascii "now", ascii "hello"), (ascii "now", ascii " ")] (ascii "now")
        (some (ascii "world")) := by
  have hchunks : ∀ c ∈ [(ascii "now", ascii "hello"), (ascii "now", ascii " ")], c.2.length < 2 ^ 31 ∧ c.2 ≠ [] := by
    decide
  refine ⟨hchunks, (chunked_stream_faithful _ rfl _ _ _ (fun c hc => (hchunks c hc).1) ?_).1
    ⟨cons_ne_nil _ _, fun c hc => (hchunks c hc).2⟩⟩
  rintro _ ⟨⟩
  decide

/-- `WriteChunked("")`, `End()`: the body has ended when `End` writes the whole response once more. -/
theorem empty_chunk_ends_the_body :
    respond (newWriter newResponse) (chunkCalls [(ascii "now", [])]) (ascii "now") none =
        [.head true (ascii "HTTP/1.1 200 OK\r\nDate: now\r\nTransfer-Encoding: chunked\r\n\r\n"),
          .body (ascii "0\r\n"), .body (ascii "\r\n"),
          .head true (ascii "HTTP/1.1 200 OK\r\nDate: now\r\nTransfer-Encoding: chunked\r\n\r\n"), .body []] ∧
      ¬ FaithfulStream (newWriter newResponse) [(ascii "now", [])] (ascii "now") none :=
  ⟨by decide, not_faithful_of_empty rfl _ (by simp) (by simp) (by simp)⟩

end HvVerified.Http.Proofs
