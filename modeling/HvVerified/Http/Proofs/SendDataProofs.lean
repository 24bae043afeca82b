import HvVerified.Http.Proofs.FileCacheProofs
import HvVerified.Http.SendData

/-!
# Responses from the file cache

The buffer of an entry keeps `httpHeaderMaxLength` cells for a header in front of the content. A header
that fits is copied right before the content, so that the two are sent in one piece, whatever header was
there before. A header that does not fit leaves `httpbuf` as the response before it has left it.
-/

namespace HvVerified.Http.Proofs

open Base Lib Option Responder FileCacheT SendResult

variable {fc fc' : FileCacheT} {header : ByteString} {len : Int} {r : Responder}

/-! ## The buffer of an entry -/

/-- The block has room for a header and the content, and `httpbuf` is a part of it if it is one of the
    current block. -/
structure BufWf (fc : FileCacheT) : Prop where
  file : ∀ n, fc.filebuf = some n → fc.buf.len = httpHeaderMaxLength + n
  http : ∀ base len, fc.httpbuf = .view base len → base + len ≤ fc.buf.len

theorem HBuf.resize_len (buf : HBuf) (cap : Nat) : (buf.resize cap).len = cap := by
  unfold HBuf.resize
  split_ifs with h
  · exact h.symm
  · rfl

section

variable (h : BufWf fc)

include h

theorem BufWf.resizeBuf (n : Nat) (bytes : ByteString) : BufWf ((fc.resizeBuf n).storeFile bytes) := by
  have hlen : ((fc.resizeBuf n).storeFile bytes).buf.len = httpHeaderMaxLength + n := HBuf.resize_len _ _
  refine ⟨fun m hm => ?_, fun base len hview => ?_⟩
  · cases hm
    exact hlen
  · rw [hlen]
    have hhttp : (if httpHeaderMaxLength + n = fc.buf.len then fc.httpbuf else fc.httpbuf.moved) = .view base len := hview
    split_ifs at hhttp with hsame
    · rw [hsame]
      exact h.http base len hhttp
    · cases hfc : fc.httpbuf <;> rw [hfc] at hhttp <;> cases hhttp

theorem BufWf.congr (hbuf : fc'.buf.len = fc.buf.len)
    (hfile : fc'.filebuf = fc.filebuf) (hhttp : fc'.httpbuf = fc.httpbuf) : BufWf fc' :=
  ⟨fun n hn => hbuf.trans (h.file n (hfile ▸ hn)), fun base len hview => hbuf ▸ h.http base len (hhttp ▸ hview)⟩

theorem BufWf.readFile (param : OpenParam) (sys : Syscalls) : BufWf (fc.readFile param sys).1 := by
  unfold FileCacheT.readFile
  dsimp only
  split_ifs
  · exact h
  · exact h
  · exact h.resizeBuf _ _
  · exact h.resizeBuf _ _

theorem BufWf.load (gmtimeFmt : Int → ByteString) (filepath : ByteString)
    (param : OpenParam) (sys : Syscalls) : BufWf (fc.load gmtimeFmt filepath param sys).1 := by
  unfold FileCacheT.load
  split
  · unfold FileCacheT.loadFile
    dsimp only
    split_ifs
    · exact h.readFile param sys
    · exact (h.readFile param sys).congr rfl rfl rfl
  · exact (h.resizeBuf sys.page.length sys.page).congr rfl rfl rfl
  · exact h.congr rfl rfl rfl

theorem BufWf.checkModified (c : FileCache) (sys : Syscalls) : BufWf (c.checkModified fc sys).1 := by
  unfold FileCache.checkModified
  split_ifs
  · exact h.congr rfl rfl rfl
  · exact h

theorem BufWf.openHit (gmtimeFmt : Int → ByteString) (c : FileCache)
    (filepath : ByteString) (param : OpenParam) (sys : Syscalls) :
    BufWf (c.openHit gmtimeFmt filepath fc param sys).1 := by
  have hcheck := h.checkModified c sys
  rcases openHit_cases gmtimeFmt c filepath fc param sys with ⟨-, he, -⟩ | ⟨-, -, he, -⟩ | ⟨param', he, -⟩
  · rw [he]; exact hcheck
  · rw [he]; exact hcheck
  · rw [he]; exact hcheck.load gmtimeFmt filepath param' sys

end

theorem bufWf_new (filepath : ByteString) (st : Stat) (now : Int) : BufWf (newFileCacheT filepath st now) :=
  ⟨fun _ h => (nomatch h), fun _ _ h => (nomatch h)⟩

/-! ## `prepend_header` -/

theorem prependHeader_eq (h : fc.prependHeader header len = some fc') (hle : len ≤ httpHeaderMaxLength) :
    ∃ n : Nat, len = n ∧ fc.filebuf ≠ none ∧ fc'.filebuf = fc.filebuf ∧ fc'.buf.len = fc.buf.len ∧
      fc'.httpbuf = .view (httpHeaderMaxLength - n) (n + fc.fileLen) ∧
      fc'.buf.cells = store fc.buf.cells (httpHeaderMaxLength - n) (header.take n) := by
  unfold prependHeader at h
  rw [if_neg (by omega)] at h
  split_ifs at h with hbad
  cases h
  rw [not_or] at hbad
  exact ⟨len.toNat, by omega, hbad.2, rfl, rfl, rfl, rfl⟩

theorem prependHeader_long (h : len > httpHeaderMaxLength) : fc.prependHeader header len = some fc := if_pos h

theorem prependHeader_frame (h : fc.prependHeader header len = some fc') :
    fc'.filebuf = fc.filebuf ∧ fc'.buf.len = fc.buf.len ∧ fc'.content = fc.content := by
  by_cases hle : len ≤ httpHeaderMaxLength
  · obtain ⟨n, hn, -, hfile, hlen, -, hcells⟩ := prependHeader_eq h hle
    refine ⟨hfile, hlen, ?_⟩
    unfold content fileLen
    rw [hcells, hfile, slice_store_after]
    rw [List.length_take]
    omega
  · rw [prependHeader_long (by omega)] at h
    cases h
    exact ⟨rfl, rfl, rfl⟩

theorem BufWf.prependHeader (hfc : BufWf fc) (h : fc.prependHeader header len = some fc') : BufWf fc' := by
  by_cases hle : len ≤ httpHeaderMaxLength
  · obtain ⟨n, hn, hloaded, hfile, hlen, hhttp, -⟩ := prependHeader_eq h hle
    obtain ⟨m, hm⟩ := ne_none_iff_exists'.1 hloaded
    refine ⟨fun k hk => hlen.trans (hfc.file k (hfile ▸ hk)), fun base l hview => ?_⟩
    rw [hhttp] at hview
    obtain ⟨rfl, rfl⟩ := HttpBuf.view.inj hview
    rw [hlen, hfc.file m hm, fileLen, hm, getD_some]
    omega
  · rw [prependHeader_long (by omega)] at h
    cases h
    exact hfc

theorem BufWf.length_httpBytes (h : BufWf fc) {data : ByteString} (hdata : fc.httpBytes = some data) :
    data.length ≤ fc.buf.len := by
  unfold httpBytes at hdata
  split at hdata
  · cases hdata
    exact Nat.zero_le _
  · next base len hview =>
    cases hdata
    have := h.http base len hview
    rw [length_slice]
    omega
  · cases hdata

theorem httpBytes_prepended (hlen : header.length ≤ httpHeaderMaxLength)
    (h : fc.prependHeader header header.length = some fc') : fc'.httpBytes = some (header ++ fc.content) := by
  obtain ⟨n, hn, -, -, -, hhttp, hcells⟩ := prependHeader_eq h (by omega)
  obtain rfl : header.length = n := by omega
  unfold httpBytes
  rw [hhttp, hcells, List.take_length]
  dsimp only
  have hend : httpHeaderMaxLength - header.length + (header.length + fc.fileLen) =
      httpHeaderMaxLength + fc.fileLen := by omega
  rw [hend, slice_store_prepend _ _ hlen (Nat.le_add_right _ _)]
  rfl

/-- What is sent is as long as header and content together only if the header fits. -/
theorem httpBytes_prependHeader_iff (h : BufWf fc) (hloaded : fc.filebuf ≠ none) (header : ByteString) :
    ((fc.prependHeader header (toInt header.length)).bind httpBytes = some (header ++ fc.content)) ↔
      header.length ≤ httpHeaderMaxLength := by
  constructor
  · intro heq
    obtain ⟨fc', hprepend, hbytes⟩ := bind_eq_some_iff.1 heq
    obtain ⟨n, hn⟩ := ne_none_iff_exists'.1 hloaded
    have hle := (h.prependHeader hprepend).length_httpBytes hbytes
    rw [(prependHeader_frame hprepend).2.1, h.file n hn, List.length_append, length_content, fileLen, hn,
      getD_some] at hle
    omega
  · intro hle
    have hlen : toInt header.length = header.length := toInt_of_lt (by unfold httpHeaderMaxLength at hle; omega)
    obtain ⟨fc', hprepend⟩ : ∃ fc', fc.prependHeader header header.length = some fc' := by
      unfold prependHeader
      rw [if_neg (by omega), if_neg (by simp [hloaded])]
      exact ⟨_, rfl⟩
    rw [hlen, hprepend, bind_some]
    exact httpBytes_prepended hle hprepend

/-! ## `GetSendData` -/

theorem sendFile_data (r : Responder) (fc : FileCacheT) (date : ByteString) : (r.sendFile fc date).map data =
      (fc.prependHeader (r.resp.dumpHead date true) (toInt (r.resp.dumpHead date true).length)).bind
        httpBytes := by
  unfold sendFile
  rw [map_bind]
  congr 1
  funext fc'
  simp [Function.comp_def]

theorem getSendData_file (hready : r.readyToSend) (hmethod : r.method ≠ httpHead)
    (fc : FileCacheT) (date : ByteString) :
    r.getSendData (some fc) date = { r with state := .sendHeader }.sendFile fc date := by
  have hsend : r.sendHeader (some fc) date = { r with state := .sendHeader }.sendFile fc date := by
    exact if_neg hmethod
  unfold readyToSend at hready
  unfold getSendData
  cases hstate : r.state <;> simp_all

@[simp] theorem returnHeader_fc (r : Responder) (fc : Option FileCacheT) (date : ByteString) :
    (r.returnHeader fc date).fc = fc := by
  unfold returnHeader
  split_ifs <;> rfl

/-- What a call of `GetSendData` does to the entry: nothing, or it prepends a header. -/
theorem getSendData_entry {date : ByteString} (h : (r.getSendData (some fc) date).bind SendResult.fc = some fc') :
    fc' = fc ∨ ∃ header len, fc.prependHeader header len = some fc' := by
  by_cases hready : r.readyToSend ∧ r.method ≠ httpHead
  · rw [getSendData_file hready.1 hready.2] at h
    obtain ⟨result, hsend, hresult⟩ := bind_eq_some_iff.1 h
    unfold sendFile at hsend
    obtain ⟨fc₁, hprepend, hmap⟩ := bind_eq_some_iff.1 hsend
    obtain ⟨data, -, rfl⟩ := map_eq_some_iff.1 hmap
    cases hresult
    exact .inr ⟨_, _, hprepend⟩
  · left
    have hhead : ∀ r : Responder, r.method = httpHead →
        (r.sendHeader (some fc) date).bind SendResult.fc = some fc := by
      intro r hmethod
      unfold sendHeader
      rw [if_pos hmethod, bind_some]
      exact returnHeader_fc _ _ _
    have hsame : (r.getSendData (some fc) date).bind SendResult.fc = some fc := by
      unfold getSendData
      unfold readyToSend at hready
      cases hstate : r.state <;> simp only [hstate, not_and, not_not, true_implies, ne_eq] at hready ⊢
      · split_ifs with hcomplete
        · exact hhead r (hready hcomplete)
        · rfl
      all_goals first
        | rfl
        | exact hhead r hready
    exact (some.inj (hsame.symm.trans h)).symm

theorem bufWf_step {gmtimeFmt : Int → ByteString} {act : EntryAct} (h : BufWf fc)
    (hs : entryStep gmtimeFmt fc act = some fc') : BufWf fc' := by
  cases act with
  | open_ cache param sys =>
    cases hs
    exact h.openHit gmtimeFmt cache fc.filepath param sys
  | send r date =>
    rcases getSendData_entry hs with rfl | ⟨header, len, hprepend⟩
    · exact h
    · exact h.prependHeader hprepend

/-- Whatever was done with an entry before, a response for `GET` that is sent from it is its own header and
    the content exactly if the header fits into the space in front of the content. -/
theorem cached_response_exact_iff (gmtimeFmt : Int → ByteString) {fc : FileCacheT}
    (h : Reachable (entryStep gmtimeFmt) Always (isNewEntry gmtimeFmt) fc) (hloaded : fc.filebuf ≠ none)
    (r : Responder) (hready : r.readyToSend = true) (hget : r.method = httpGet) (date : ByteString) :
    (r.getSendData (some fc) date).map SendResult.data = some (r.resp.dumpHead date true ++ fc.content) ↔
      (r.resp.dumpHead date true).length ≤ httpHeaderMaxLength := by
  have hwf : BufWf fc := by
    refine h.invariant (I := BufWf) ?_ fun _ _ _ hfc _ hs => bufWf_step hfc hs
    rintro _ ⟨filepath, st, now, param, sys, rfl⟩
    exact (bufWf_new filepath st now).load gmtimeFmt filepath param sys
  rw [getSendData_file hready (by rw [hget]; decide), sendFile_data]
  exact httpBytes_prependHeader_iff hwf hloaded _

def helloEntry : FileCacheT :=
  ((newFileCacheT (ascii "/a") ⟨.regular, 1, 5⟩ 0).load decimal (ascii "/a") ⟨true, 4096⟩
    ⟨0, none, some ⟨.regular, 1, 5⟩, true, fun _ => some (ascii "hello"), []⟩).1

theorem helloEntry_new : isNewEntry decimal helloEntry := ⟨_, _, _, _, _, rfl⟩

def getResponder (resp : HttpMessage) : Responder := ⟨.handleEnd, httpGet, true, resp, []⟩

theorem cached_response_exact_iff_hello : helloEntry.filebuf ≠ none ∧
      ((getResponder newResponse).getSendData (some helloEntry) (ascii "now")).map SendResult.data =
        some (newResponse.dumpHead (ascii "now") true ++ helloEntry.content) := by
  have hloaded : helloEntry.filebuf ≠ none := by decide +kernel
  exact ⟨hloaded, (cached_response_exact_iff decimal (.start helloEntry_new) hloaded (getResponder newResponse) rfl rfl
    (ascii "now")).2 (by decide +kernel)⟩

def longResponse : HttpMessage := newResponse.setHeader (ascii "X") (List.replicate 1025 97)

/-- The response with a cookie of one connection is sent again, to another connection. -/
theorem header_of_other_response_sent :
    ∃ fc, Reachable (entryStep decimal) Always (isNewEntry decimal) fc ∧ fc.filebuf ≠ none ∧
      ((getResponder longResponse).getSendData (some fc) (ascii "now")).map SendResult.data =
        some ((newResponse.setHeader (ascii "Set-Cookie") (ascii "id=1")).dumpHead (ascii "now") true ++ ascii "hello") ∧
      ((getResponder longResponse).getSendData (some fc) (ascii "now")).map SendResult.data ≠
        some (longResponse.dumpHead (ascii "now") true ++ fc.content) := by
  obtain ⟨fc, hsend, hfc⟩ := map_eq_some_iff.1
    (show (entryStep decimal helloEntry
        (.send (getResponder (newResponse.setHeader (ascii "Set-Cookie") (ascii "id=1"))) (ascii "now"))).map
          (fun fc => (decide (fc.filebuf = none),
            ((getResponder longResponse).getSendData (some fc) (ascii "now")).map data,
            decide (((getResponder longResponse).getSendData (some fc) (ascii "now")).map data =
              some (longResponse.dumpHead (ascii "now") true ++ fc.content)))) =
        some (false, some ((newResponse.setHeader (ascii "Set-Cookie") (ascii "id=1")).dumpHead (ascii "now") true ++
          ascii "hello"), false) by decide +kernel)
  simp only [Prod.mk.injEq, decide_eq_false_iff_not] at hfc
  obtain ⟨hloaded, hdata, hne⟩ := hfc
  exact ⟨fc, .step (.start helloEntry_new) trivial hsend, hloaded, hdata, hne⟩

end HvVerified.Http.Proofs
