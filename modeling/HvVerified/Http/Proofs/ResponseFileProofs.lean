import HvVerified.Http.Proofs.MessageProofs
import HvVerified.Http.ResponseFile

/-!
# Ranges of files

What `ResponseFile` answers, by cases on the two numbers of the request. Inside of the file the range is
sent as announced. Outside of it the answer is a partial one in most cases, with a range that does not
exist; the request is refused only if reading gives another number of bytes than the two numbers say.
-/

namespace HvVerified.Http.Proofs

open Base List Transfer HFile DiskFile HttpMessage HttpHeaders

variable {maxSize : Int} {f : DiskFile}

/-! ## Sending a file in pieces -/

theorem peek_split (f : HFile) {len n : Nat} (h : len ≤ n) :
    f.peek n = f.peek len ++ (f.read len).peek (n - (f.peek len).length) := by
  simp only [HFile.peek, HFile.read, ← drop_drop]
  generalize f.content.drop f.pos = rest
  rcases Nat.le_total len rest.length with hlen | hlen
  · rw [length_take, Nat.min_eq_left hlen, ← take_append_drop len (rest.take n), take_take,
      Nat.min_eq_left h, drop_take]
  · rw [take_of_length_le hlen, take_of_length_le (Nat.le_trans hlen h), drop_length,
      take_nil, append_nil]

variable {keepAlive : Bool} {bytes : ByteString} {t : Transfer}

/-- What was sent and what remains are the bytes of the range. -/
structure OnTrack (bytes : ByteString) (t : Transfer) : Prop where
  total : t.sent ++ t.file.peek t.contentLength = bytes
  available : (t.file.peek t.contentLength).length = t.contentLength

theorem pieceLen_le (t : Transfer) (maxSize : Int) : t.pieceLen maxSize ≤ t.contentLength := by
  unfold pieceLen
  dsimp only
  split_ifs <;> omega

theorem pieceLen_pos (hlen : t.contentLength ≠ 0) (hmax : maxSize ≠ 0) : 0 < t.pieceLen maxSize := by
  unfold pieceLen
  dsimp only
  split_ifs <;> omega

section

variable (h : OnTrack bytes t)

include h

theorem OnTrack.congr {t' : Transfer} (hlen : t'.contentLength = t.contentLength)
    (hfile : t'.file = t.file) (hsent : t'.sent = t.sent) : OnTrack bytes t' :=
  ⟨by rw [hsent, hfile, hlen]; exact h.total, by rw [hfile, hlen]; exact h.available⟩

theorem OnTrack.finish : OnTrack bytes (t.finish keepAlive) := by
  unfold Transfer.finish
  split_ifs
  · exact h.congr rfl rfl rfl
  · exact h

theorem OnTrack.advance (maxSize : Int) : OnTrack bytes (t.advance maxSize) := by
  have hsplit := peek_split t.file (pieceLen_le t maxSize)
  refine ⟨?_, ?_⟩
  · rw [← h.total, hsplit, ← append_assoc]
    rfl
  · have hlen := h.available
    rw [hsplit, length_append] at hlen
    simp only [Transfer.advance]
    omega

theorem OnTrack.piece_ne_nil (hlen : t.contentLength ≠ 0) (hmax : maxSize ≠ 0) :
    t.file.peek (t.pieceLen maxSize) ≠ [] := by
  have havailable := h.available
  have hpos := pieceLen_pos hlen hmax
  simp only [peek, length_take] at havailable
  rw [← length_pos_iff, peek, length_take]
  omega

theorem OnTrack.pause (maxSize : Int) : OnTrack bytes (t.pause maxSize) := by
  unfold Transfer.pause
  split_ifs
  · exact h
  · exact h.congr rfl rfl rfl

end

/-- What a call leaves: some pieces are sent, and then the transfer is finished, waits, or is given up after a
    failed write. -/
theorem writeLoop_rule {P Q : Transfer → Prop} {outcomes : List WriteOutcome}
    (hadvance : ∀ t maxSize, P t → P (t.advance maxSize)) (hclosed : ∀ t, P t → P { t with closed := true })
    (hfinish : ∀ t, P t → Q (t.finish keepAlive))
    (hfailed : ∀ t, P t → WriteOutcome.failed ∈ outcomes → Q (t.endFile.finish keepAlive))
    (hpause : ∀ t maxSize, P t → Q (t.pause maxSize)) (h : P t) : Q (t.writeLoop keepAlive maxSize outcomes) := by
  induction t, maxSize, outcomes using writeLoop.induct with
  | case1 t maxSize outcomes hdone =>
    rw [writeLoop, if_pos hdone]
    exact hfinish t h
  | case2 t maxSize outcomes hdone hempty =>
    rw [writeLoop, if_neg hdone, if_pos hempty]
    exact hfinish _ (hclosed t h)
  | case3 t maxSize outcomes hdone hempty hhead =>
    rw [writeLoop, if_neg hdone, if_neg hempty, hhead]
    cases outcomes with
    | nil => cases hhead
    | cons outcome outcomes => exact hfailed t h (hhead ▸ mem_cons_self)
  | case4 t maxSize outcomes hdone hempty hhead =>
    rw [writeLoop, if_neg hdone, if_neg hempty, hhead]
    exact hpause _ maxSize (hadvance t maxSize h)
  | case5 t maxSize outcomes hdone hempty hhead ih =>
    rw [writeLoop, if_neg hdone, if_neg hempty, hhead]
    exact ih (fun t ht hmem => hfailed t ht (mem_of_mem_tail hmem)) (hadvance t maxSize h)

theorem OnTrack.writeFile (h : OnTrack bytes t) (maxSize : Int) (outcomes : List WriteOutcome) :
    OnTrack bytes (t.writeFile keepAlive maxSize outcomes) := by
  unfold Transfer.writeFile
  split_ifs
  · exact writeLoop_rule (fun _ maxSize h => h.advance maxSize) (fun _ h => h.congr rfl rfl rfl)
      (fun _ h => h.finish) (fun t h _ => OnTrack.finish (t := t.endFile) (h.congr rfl rfl rfl))
      (fun _ maxSize h => h.pause maxSize) h
  · exact h

theorem OnTrack.run (keepAlive : Bool) (h : OnTrack bytes t) (calls : List (Int × List WriteOutcome)) :
    OnTrack bytes (t.run keepAlive calls) := by
  induction calls generalizing t with
  | nil => exact h
  | cons call calls ih => exact ih (h.writeFile call.1 call.2)

/-! ## The end of a transfer -/

/-- A transfer whose file is closed has come to its end. -/
def OpenUntilEnd (t : Transfer) : Prop := t.isopen ∨ t.contentLength = 0

@[simp] theorem contentLength_finish : (t.finish keepAlive).contentLength = t.contentLength := by
  unfold finish
  split_ifs <;> rfl

theorem openUntilEnd_finish (h : OpenUntilEnd t) : OpenUntilEnd (t.finish keepAlive) := by
  by_cases hlen : t.contentLength = 0
  · exact .inr (by rw [contentLength_finish]; exact hlen)
  · rcases h with h | h
    · exact .inl (by rw [finish, if_neg hlen]; exact h)
    · exact absurd h hlen

theorem run_openUntilEnd (calls : List (Int × List WriteOutcome)) (h : OpenUntilEnd t)
    (hcalls : ∀ call ∈ calls, WriteOutcome.failed ∉ call.2) : OpenUntilEnd (t.run keepAlive calls) := by
  induction calls generalizing t with
  | nil => exact h
  | cons call calls ih =>
    have hcall : OpenUntilEnd (t.writeFile keepAlive call.1 call.2) := by
      unfold writeFile
      split_ifs with hopen
      · exact writeLoop_rule (P := fun t => t.isopen) (fun _ _ h => h) (fun _ h => h)
          (fun _ h => openUntilEnd_finish (.inl h)) (fun _ _ hfailed => absurd hfailed (hcalls call mem_cons_self))
          (fun _ _ h => .inl (by unfold pause; split_ifs <;> exact h)) hopen
      · exact h
    exact ih hcall fun call' hcall' => hcalls call' (mem_cons_of_mem _ hcall')

theorem contentLength_writeLoop_le (maxSize : Int) (outcomes : List WriteOutcome) :
    (t.writeLoop keepAlive maxSize outcomes).contentLength ≤ t.contentLength :=
  writeLoop_rule (P := fun t' => t'.contentLength ≤ t.contentLength) (Q := fun t' => t'.contentLength ≤ t.contentLength)
    (fun _ _ h => (Nat.sub_le _ _).trans h) (fun _ h => h)
    (fun _ h => contentLength_finish.trans_le h) (fun _ h _ => contentLength_finish.trans_le h)
    (fun _ _ h => by unfold pause; split_ifs <;> exact h) le_rfl

theorem contentLength_writeFile_lt (keepAlive : Bool) (h : OnTrack bytes t) (hopen : OpenUntilEnd t)
    (hlen : t.contentLength ≠ 0)
    (hmax : maxSize ≠ 0) : (t.writeFile keepAlive maxSize []).contentLength < t.contentLength := by
  have hpiece := h.piece_ne_nil hlen hmax
  have hadvance : (t.advance maxSize).contentLength < t.contentLength := by
    have := length_pos_iff.2 hpiece
    simp only [advance]
    omega
  rw [writeFile, if_pos (hopen.resolve_right hlen), writeLoop, if_neg (by simp [hlen, hmax]),
    if_neg hpiece]
  exact Nat.lt_of_le_of_lt (contentLength_writeLoop_le _ _) hadvance

theorem run_reaches_end (h : OnTrack bytes t) (hopen : OpenUntilEnd t) (hmax : maxSize ≠ 0) :
    ∃ n, (t.run keepAlive (replicate n (maxSize, []))).contentLength = 0 := by
  -- each call leaves less to be sent
  induction hn : t.contentLength using Nat.strong_induction_on generalizing t with
  | _ k ih =>
    by_cases hlen : t.contentLength = 0
    · exact ⟨0, hlen⟩
    · have hlt := contentLength_writeFile_lt keepAlive h hopen hlen hmax
      have hopen' : OpenUntilEnd (t.writeFile keepAlive maxSize []) :=
        run_openUntilEnd [(maxSize, [])] hopen (by simp)
      obtain ⟨n, hend⟩ := ih _ (hn ▸ hlt) (h.writeFile maxSize []) hopen' rfl
      exact ⟨n + 1, hend⟩

theorem delivers_of_onTrack (h : OnTrack bytes t) (hopen : t.isopen) : t.delivers keepAlive bytes := by
  refine ⟨fun calls => ?_, fun calls hcalls maxSize hmax => ?_⟩
  · have hrun := (h.run keepAlive calls).total
    refine ⟨⟨_, hrun⟩, fun hlen => ?_⟩
    rw [hlen] at hrun
    simpa [peek] using hrun
  · exact run_reaches_end (h.run keepAlive calls) (run_openUntilEnd calls (.inl hopen) hcalls) hmax


/-! ## The numbers of a request -/

theorem scanLong_bounds {s rest : ByteString} {value : Int} (h : scanLong s = some (value, rest)) :
    -2 ^ 63 ≤ value ∧ value < 2 ^ 63 := by
  unfold scanLong at h
  dsimp only at h
  split_ifs at h
  all_goals
    simp only [Option.some.injEq, Prod.mk.injEq] at h
    omega

theorem scanRange_bounds (str : ByteString) : (-2 ^ 63 ≤ (scanRange str).1 ∧ (scanRange str).1 < 2 ^ 63) ∧
      -2 ^ 63 ≤ (scanRange str).2 ∧ (scanRange str).2 < 2 ^ 63 := by
  unfold scanRange
  split_ifs
  · split
    · simp
    · next r hfrom =>
      have hr := scanLong_bounds hfrom
      split_ifs
      · split
        · exact ⟨hr, by simp⟩
        · next r' hto => exact ⟨hr, scanLong_bounds hto⟩
      · exact ⟨hr, by simp⟩
  · simp

theorem isdigit_ne {d : UInt8} (h : isdigit d) : isspace d = false ∧ d ≠ 45 ∧ d ≠ 43 := by
  simp only [isdigit, Bool.and_eq_true, decide_eq_true_eq, UInt8.le_iff_toNat_le] at h
  simp only [isspace, UInt8.le_iff_toNat_le, ← UInt8.toNat_inj, ne_eq, Bool.or_eq_false_iff, Bool.and_eq_false_iff,
    decide_eq_false_iff_not]
  simp only [UInt8.reduceToNat] at h ⊢
  omega

theorem scanLong_digits {digits rest : ByteString} (hne : digits ≠ []) (hdigits : ∀ d ∈ digits, isdigit d)
    (hrest : ∀ d, rest.head? = some d → isdigit d = false) :
    scanLong (digits ++ rest) = some (min (leadingNumber digits 0 : Int) (2 ^ 63 - 1), rest) := by
  obtain ⟨d, ds, rfl⟩ := exists_cons_of_ne_nil hne
  obtain ⟨hspace, hminus, hplus⟩ := isdigit_ne (hdigits d mem_cons_self)
  have htake : (d :: ds ++ rest).takeWhile isdigit = d :: ds := by
    rw [takeWhile_append_of_pos hdigits]
    cases rest with
    | nil => simp
    | cons c rest => simp [hrest c rfl]
  have hdrop : (d :: ds ++ rest).dropWhile isspace = d :: ds ++ rest := by
    rw [cons_append, dropWhile_cons_of_neg (by simp [hspace])]
  have hminus' : (d :: ds ++ rest).head? ≠ some 45 := by simp [hminus]
  have hplus' : (d :: ds ++ rest).head? ≠ some 43 := by simp [hplus]
  unfold scanLong
  dsimp only
  rw [hdrop, if_neg (not_or.2 ⟨by simpa using hminus', hplus'⟩), htake, if_neg hne, drop_left,
    if_neg (by simpa using hminus')]

theorem zero_notMem_digits {digits : ByteString} (h : ∀ d ∈ digits, isdigit d) : (0 : UInt8) ∉ digits :=
  fun hmem => absurd (h 0 hmem) (by decide)

theorem scanRange_of_isRangeHeader {value : ByteString} {a b : Nat} (h : isRangeHeader value a b) (ha : a < 2 ^ 63)
    (hb : b < 2 ^ 63) : scanRange (cStr value) = ((a : Int), (b : Int)) := by
  obtain ⟨da, db, hane, hbne, hda, hdb, rfl, rfl, rfl⟩ := h
  have hcstr : cStr (ascii "bytes=" ++ da ++ ascii "-" ++ db) = ascii "bytes=" ++ da ++ ascii "-" ++ db := by
    apply cStr_of_notMem
    simp only [mem_append, not_or]
    exact ⟨⟨⟨by decide, zero_notMem_digits hda⟩, by decide⟩, zero_notMem_digits hdb⟩
  have hprefix : (ascii "bytes=").isPrefixOf (ascii "bytes=" ++ (da ++ (ascii "-" ++ db))) := by
    rw [ isPrefixOf_iff_prefix]
    exact prefix_append _ _
  have hfrom : scanLong ((ascii "bytes=" ++ (da ++ (ascii "-" ++ db))).drop 6) =
      some ((leadingNumber da 0 : Int), ascii "-" ++ db) := by
    rw [show (6 : Nat) = (ascii "bytes=").length from rfl, drop_left,
      scanLong_digits hane hda (by rintro d ⟨⟩; decide), min_eq_left (by omega)]
  have hto : scanLong db = some ((leadingNumber db 0 : Int), []) := by
    have hscan := @scanLong_digits db [] hbne hdb (by simp)
    rw [append_nil, min_eq_left (by omega)] at hscan
    exact hscan
  rw [hcstr, append_assoc, append_assoc, scanRange, if_pos hprefix, hfrom]
  dsimp only
  rw [if_pos (show (ascii "-" ++ db).head? = some 45 from rfl), show (ascii "-" ++ db).tail = db from rfl, hto]

/-! ## The type of a file -/

theorem strrchr_suffix {c : UInt8} {str rest : ByteString} (h : strrchr c str = some rest) : rest <:+ str := by
  induction str with
  | nil => simp [strrchr] at h
  | cons b str ih =>
    rw [strrchr] at h
    split at h
    · next hrest =>
      cases h
      exact (ih hrest).trans (suffix_cons b str)
    · split_ifs at h
      cases h
      exact suffix_rfl

theorem cStr_suffixname (path : ByteString) : cStr (suffixname path) = suffixname path := by
  apply cStr_of_notMem
  unfold suffixname
  cases hrest : strrchr 46 (cStr path) with
  | none => simp
  | some rest =>
    intro hmem
    exact zero_notMem_cStr path ((strrchr_suffix hrest).subset (mem_of_mem_tail hmem))

theorem contentTypeEnumBySuffix_eq_textEventStream {str : ByteString} :
    httpContentTypeEnumBySuffix str = .textEventStream ↔ cStr str = ascii "sse" := by
  constructor
  · intro h
    unfold httpContentTypeEnumBySuffix at h
    split_ifs at h
    have honly : ∀ entry ∈ httpContentTypeSuffixMap, entry.1 = .textEventStream → ascii entry.2 = ascii "sse" := by
      decide
    cases hfind : httpContentTypeSuffixMap.find? fun entry => ascii entry.2 = cStr str with
    | none =>
      rw [hfind] at h
      cases h
    | some entry =>
      rw [hfind] at h
      have hentry : ascii entry.2 = cStr str := by simpa using find?_some hfind
      rw [← hentry]
      exact honly entry (mem_of_find?_eq_some hfind) h
  · intro h
    unfold httpContentTypeEnumBySuffix
    rw [h]
    decide

theorem contentType_by_filename (m : HttpMessage) (path : ByteString) :
    (m.setContentTypeByFilename path).contentType ≠ .none ∧
      ((m.setContentTypeByFilename path).contentType = .textEventStream ↔ suffixname path = ascii "sse") := by
  have hsse := @contentTypeEnumBySuffix_eq_textEventStream (suffixname path)
  rw [cStr_suffixname] at hsse
  rw [← hsse]
  unfold setContentTypeByFilename
  dsimp only
  split_ifs with hunknown
  · refine ⟨by decide, ⟨nofun, fun h => ?_⟩⟩
    rw [h] at hunknown
    simp at hunknown
  · exact ⟨fun h => hunknown (.inl h), Iff.rfl⟩

/-! ## Reading a range -/

theorem length_resizeString (str : ByteString) (n : Nat) : (resizeString str n).length = n := by
  simp only [resizeString, length_append, length_take, length_replicate]
  omega

theorem readrange_eq {f : HFile} (str : ByteString) {from_ to_ : Int} (hne : 0 < f.content.length) {readbytes : Nat}
    (hbytes : toSizeT (((if toSizeT to_ = 0 ∨ f.content.length ≤ toSizeT to_ then f.content.length - 1
      else toSizeT to_ : Nat) : Int) - (toSizeT from_ : Int) + 1) = readbytes) :
    f.readrange str from_ to_ = if 2 ^ 63 ≤ readbytes then none else
      some ((f.seek from_).peek readbytes ++ (resizeString str readbytes).drop ((f.seek from_).peek readbytes).length,
        toInt ((f.seek from_).peek readbytes).length) := by
  unfold readrange
  dsimp only
  rw [if_neg (by omega), hbytes]

theorem readrange_inside {f : HFile} (str : ByteString) {from_ to_ : Nat} (hle : from_ ≤ to_) (hto : to_ < f.content.length)
    (hzero : to_ = 0 → f.content.length = 1) (hsize : f.content.length < 2 ^ 63) (hsmall : to_ - from_ + 1 < 2 ^ 21) :
    f.readrange str from_ to_ = some ((f.content.drop from_).take (to_ - from_ + 1), ((to_ - from_ + 1 : Nat) : Int)) := by
  have hbytes := @readrange_eq f str from_ to_ (by omega) (to_ - from_ + 1) (by
    rw [toSizeT_natCast (by omega), toSizeT_natCast (by omega)]
    split_ifs <;> unfold toSizeT <;> omega)
  have hpeek : (f.seek from_).peek (to_ - from_ + 1) = (f.content.drop from_).take (to_ - from_ + 1) := by
    simp [seek, peek]
  have hlen : ((f.content.drop from_).take (to_ - from_ + 1)).length = to_ - from_ + 1 := by
    rw [length_take, length_drop]
    omega
  have hrest : (resizeString str (to_ - from_ + 1)).drop (to_ - from_ + 1) = [] :=
    drop_of_length_le (Nat.le_of_eq (length_resizeString str _))
  rw [hbytes, if_neg (by omega), hpeek, hlen, toInt_of_lt (by omega), hrest, append_nil]

theorem seek_nonpos {f : HFile} {offset : Int} (hoffset : offset ≤ 0) (hpos : f.pos = 0) : f.seek offset = f := by
  unfold seek
  split_ifs
  · rw [Int.toNat_of_nonpos hoffset, ← hpos]
  · rfl

theorem readrange_empty {f : HFile} (str : ByteString) {to_ : Nat} (hto : to_ < f.content.length)
    (hzero : to_ = 0 → f.content.length = 1) (hsize : f.content.length < 2 ^ 63) :
    ∃ r, f.readrange str (to_ + 1 : Nat) to_ = some r ∧ r.2 = 0 := by
  have hbytes := @readrange_eq f str (to_ + 1 : Nat) to_ (by omega) 0 (by
    rw [toSizeT_natCast (by omega), toSizeT_natCast (by omega)]
    split_ifs <;> unfold toSizeT <;> omega)
  rw [hbytes, if_neg (by omega)]
  exact ⟨_, rfl, by simp [peek, toInt]⟩

theorem readrange_before {f : HFile} (str : ByteString) {from_ : Int} {to_ : Nat} (hneg : from_ < 0)
    (hto : to_ < f.content.length) (hzero : to_ = 0 → f.content.length = 1) (hsize : f.content.length < 2 ^ 63)
    (hpos : f.pos = 0) (hsmall : to_ - from_ + 1 < 2 ^ 21) :
    ∃ r, f.readrange str from_ to_ = some r ∧ r.2 = min (f.content.length : Int) (to_ - from_ + 1) := by
  have hbytes := @readrange_eq f str from_ to_ (by omega) (to_ - from_ + 1).toNat (by
    rw [toSizeT_natCast (by omega)]
    split_ifs <;> unfold toSizeT <;> omega)
  have hlen : ((f.seek from_).peek (to_ - from_ + 1).toNat).length = min (to_ - from_ + 1).toNat f.content.length := by
    rw [seek_nonpos hneg.le hpos, peek, hpos, drop_zero, length_take]
  rw [hbytes, if_neg (by omega)]
  refine ⟨_, rfl, ?_⟩
  rw [hlen, toInt_of_lt (by omega)]
  omega

theorem readrange_negative {f : HFile} (str : ByteString) {from_ to_ : Int} (hfrom : from_ ≤ 0) (hto : to_ < 0)
    (hbound : -2 ^ 63 ≤ from_ ∧ -2 ^ 63 ≤ to_) (hne : 0 < f.content.length) (hsize : f.content.length < 2 ^ 63)
    (hpos : f.pos = 0) :
    (f.content.length - from_ < 2 ^ 63 → ∃ r, f.readrange str from_ to_ = some r ∧ r.2 = toInt f.content.length) ∧
      (2 ^ 63 ≤ f.content.length - from_ → f.readrange str from_ to_ = none) := by
  have hbytes := @readrange_eq f str from_ to_ hne (f.content.length - from_).toNat (by
    have hlast : f.content.length ≤ toSizeT to_ := by
      unfold toSizeT
      omega
    rw [if_pos (.inr hlast)]
    unfold toSizeT
    omega)
  have hpeek : (f.seek from_).peek (f.content.length - from_).toNat = f.content := by
    rw [seek_nonpos hfrom hpos, peek, hpos, drop_zero, take_of_length_le (by omega)]
  rw [hbytes, hpeek]
  refine ⟨fun h => ?_, fun h => if_pos (by omega)⟩
  rw [if_neg (by omega)]
  exact ⟨_, rfl, rfl⟩

/-! ## The response -/

variable {m : HttpMessage}

def rangeMessage (m : HttpMessage) (path : ByteString) (from_ to_ total : Int) : HttpMessage :=
  { { m.setContentTypeByFilename path with contentLength := toSizeT (to_ - from_ + 1) }.setRange from_ to_ total with
    type := .response 206 }

theorem freshResponse_withBody (h : FreshResponse m) (body : ByteString) : FreshResponse { m with body := body } :=
  ⟨h.json, h.form, h.kv, h.content, h.contentLength, h.contentType, h.transferEncoding⟩

variable {from_ to_ : Int}

theorem rangeMessage_lengthKnown (total : Int) (hfresh : FreshResponse m) (path : ByteString)
    (hlen : toSizeT (to_ - from_ + 1) ≠ 0) : LengthKnown (rangeMessage m path from_ to_ total) := by
  have hget : ∀ key, foldCase key ≠ foldCase (ascii "Content-Range") →
      (rangeMessage m path from_ to_ total).headers.get key = m.headers.get key :=
    fun key hkey => get_set_of_ne hkey _ m.headers
  refine ⟨(hget _ (by decide)).trans hfresh.contentLength, (hget _ (by decide)).trans hfresh.contentType, ?_, hlen,
    (contentType_by_filename m path).1⟩
  unfold isChunked
  rw [hget _ (by decide), hfresh.transferEncoding]
  rfl

/-- The headers announce the range, except that an event stream has no length. -/
theorem headers_rangeMessage (total : Int) (hfresh : FreshResponse m) (path date : ByteString)
    (hlen : toSizeT (to_ - from_ + 1) ≠ 0) :
    ((rangeMessage m path from_ to_ total).dumped date true false).headers.get (ascii "Content-Range") =
        some (contentRange from_ to_ total) ∧
      ((rangeMessage m path from_ to_ total).dumped date true false).headers.get (ascii "Content-Length") =
        if suffixname path = ascii "sse" then none else some (decimal (toSizeT (to_ - from_ + 1))) := by
  have hknown := rangeMessage_lengthKnown total hfresh path hlen
  refine ⟨(hknown.get_of_ne date (by decide) (by decide) (by decide)).trans (get_set_self _ _ _), ?_⟩
  rw [hknown.get_contentLength date]
  exact if_congr (contentType_by_filename m path).2 rfl rfl

theorem statusCode_rangeMessage (total : Int) (hfresh : FreshResponse m) (path date : ByteString)
    (hlen : toSizeT (to_ - from_ + 1) ≠ 0) :
    ((rangeMessage m path from_ to_ total).dumped date true false).statusCode = 206 := by
  unfold statusCode
  rw [((rangeMessage_lengthKnown total hfresh path hlen).contentLength_dumped date).2]
  rfl

/-- The reply is the range, except that an event stream has no length. -/
structure RangeSent (f : DiskFile) (path : ByteString) (from_ to_ : Nat) (reply : FileReply) : Prop where
  status : reply.status = 206
  range : reply.range = some ((from_ : Int), (to_ : Int), (f.size : Int))
  contentRange : reply.headers.get (ascii "Content-Range") = some (contentRange from_ to_ f.size)
  contentLength : reply.headers.get (ascii "Content-Length") =
    if suffixname path = ascii "sse" then none else some (decimal ((to_ - from_ + 1 : Nat) : Int))
  body : reply.body.is ((f.content.drop from_).take (to_ - from_ + 1))

theorem sendFileRange_inside (hfresh : FreshResponse m) (f : DiskFile) (path date : ByteString) {from_ to_ : Nat}
    (hle : from_ ≤ to_) (hto : to_ < f.size) (hzero : to_ = 0 → f.size = 1) :
    ∃ reply, sendFileRange (rangeMessage m path from_ to_ f.size) (seek ⟨f.content, 0⟩ from_) from_ to_
      (some (from_, to_, f.size)) date = some reply ∧ RangeSent f path from_ to_ reply := by
  have hsize := f.offset
  unfold size at hto hzero
  have hlen : toSizeT ((to_ : Int) - from_ + 1) = to_ - from_ + 1 := by
    unfold toSizeT
    omega
  have hne : toSizeT ((to_ : Int) - from_ + 1) ≠ 0 := by omega
  have hseek : (seek ⟨f.content, 0⟩ from_) = ⟨f.content, from_⟩ := by simp [seek]
  have hbytes : ((f.content.drop from_).take (to_ - from_ + 1)).length = to_ - from_ + 1 := by
    rw [length_take, length_drop]
    omega
  have hbodylen : (rangeMessage m path from_ to_ f.size).contentLength = to_ - from_ + 1 := hlen
  rw [hseek]
  unfold sendFileRange
  split_ifs with hsmall
  · -- the body is in memory
    rw [hbodylen] at hsmall
    have hread := @readrange_inside ⟨f.content, from_⟩ (rangeMessage m path from_ to_ f.size).body from_ to_ hle hto
      hzero hsize hsmall
    rw [hread]
    refine ⟨_, rfl, ?_⟩
    dsimp only
    rw [if_neg (not_not_intro ((toSizeT_natCast (by omega)).trans hbodylen.symm))]
    generalize hbody : (f.content.drop from_).take (to_ - from_ + 1) = bytes at hbytes ⊢
    have hbodyne : bytes ≠ [] := length_pos_iff.1 (by omega)
    have hheaders := headers_rangeMessage f.size (freshResponse_withBody hfresh bytes) path date hne
    have hdump : ((rangeMessage { m with body := bytes } path from_ to_ f.size).dumped date true true).headers =
        ((rangeMessage { m with body := bytes } path from_ to_ f.size).dumped date true false).headers :=
      headers_dumped_body date hfresh.json hfresh.form hfresh.kv hfresh.content hbodyne
    rw [← hdump, hlen] at hheaders
    have htext : ((rangeMessage { m with body := bytes } path from_ to_ f.size).dumped date true true).bodyText = bytes :=
      bodyText_dumped date true hfresh.json hfresh.form hfresh.kv hfresh.content
    exact ⟨rfl, rfl, hheaders.1, hheaders.2, htext.trans hbody.symm⟩
  · -- the body is sent from the file
    have hdumped := (rangeMessage_lengthKnown f.size hfresh path hne).contentLength_dumped date
    have hheaders := headers_rangeMessage f.size hfresh path date hne
    rw [hlen] at hheaders
    have hstatus := statusCode_rangeMessage f.size hfresh path date hne
    have hlength := hdumped.1.trans hlen
    refine ⟨_, rfl, hstatus, rfl, hheaders.1, hheaders.2, ?_⟩
    apply delivers_of_onTrack _ rfl
    constructor
    · rw [hlength]
      rfl
    · rw [hlength]
      exact hbytes

/-! ## Exact replies -/

theorem RangeSent.exactReply_iff {path : ByteString} {from_ to_ : Nat} {reply : FileReply}
    (h : RangeSent f path from_ to_ reply) (value : ByteString) (hle : from_ ≤ to_) (hto : to_ < f.size) :
    exactReply f value reply ↔ suffixname path ≠ ascii "sse" ∧
      ∀ a b, isRangeHeader value a b → a ≤ b → b < f.size → from_ = a ∧ to_ = b := by
  constructor
  · rintro (hstatus | ⟨a, b, -, -, hrange, -, hlength, -, hexact⟩)
    · exact absurd h.status hstatus
    · rw [h.range] at hrange
      obtain ⟨rfl, rfl⟩ := hrange
      refine ⟨fun hsse => ?_, hexact⟩
      rw [h.contentLength, if_pos hsse] at hlength
      cases hlength
  · rintro ⟨hsse, hexact⟩
    refine .inr ⟨from_, to_, hle, hto, h.range, h.contentRange, ?_, h.body, hexact⟩
    rw [h.contentLength, if_neg hsse]

/-- Outside of the file the reply is exact only if the request is refused. -/
theorem sendFileRange_outside (hfresh : FreshResponse m) (f : DiskFile) (path date value : ByteString) (file : HFile)
    (hbad : ¬ (0 ≤ from_ ∧ from_ ≤ to_)) :
    (∃ reply, sendFileRange (rangeMessage m path from_ to_ f.size) file from_ to_ (some (from_, to_, f.size)) date =
        some reply ∧ exactReply f value reply) ↔
      toSizeT (to_ - from_ + 1) < 2 ^ 21 ∧
        ∃ r, file.readrange m.body from_ to_ = some r ∧ toSizeT r.2 ≠ toSizeT (to_ - from_ + 1) := by
  have hinexact : ∀ reply : FileReply, reply.status = 206 → reply.range = some (from_, to_, (f.size : Int)) →
      ¬ exactReply f value reply := by
    rintro reply hstatus hrange (hother | ⟨a, b, hab, -, hrange', -⟩)
    · exact hother hstatus
    · rw [hrange] at hrange'
      simp only [Option.some.injEq, Prod.mk.injEq] at hrange'
      omega
  have hlength : (rangeMessage m path from_ to_ f.size).contentLength = toSizeT (to_ - from_ + 1) := rfl
  unfold sendFileRange
  split_ifs with hsmall
  · rw [hlength] at hsmall
    rw [show (rangeMessage m path from_ to_ f.size).body = m.body from rfl]
    cases hread : file.readrange m.body from_ to_ with
    | none => simp
    | some r =>
      simp only [Option.map_some, Option.some.injEq, exists_eq_left', hsmall, true_and]
      split_ifs with hrefused
      · exact ⟨fun _ => hrefused, fun _ => .inl (show (500 : Nat) ≠ 206 by decide)⟩
      · exact ⟨fun hexact => absurd hexact (hinexact _ rfl rfl), fun h => absurd h hrefused⟩
  · rw [hlength] at hsmall
    simp only [hsmall, false_and, iff_false]
    rintro ⟨reply, hreply, hexact⟩
    cases hreply
    exact hinexact _ (statusCode_rangeMessage f.size hfresh path date (by omega)) rfl hexact

theorem lastByte_lt (to_ : Int) : lastByte to_ f.size < f.size := by
  unfold lastByte
  split_ifs <;> omega

theorem lastByte_eq_zero {to_ : Int} (h : lastByte to_ f.size = 0) : f.size = 1 := by
  unfold lastByte at h
  split_ifs at h <;> omega

theorem range_as_asked_iff {value : ByteString} {from_ to_ : Nat}
    (hfrom : (scanRange (cStr value)).1 = from_) (hto : lastByte (scanRange (cStr value)).2 f.size = to_) :
    (∀ a b, isRangeHeader value a b → a ≤ b → b < f.size → from_ = a ∧ to_ = b) ↔
      (isRangeHeader value 0 0 → f.size = 1) := by
  have hsize := f.offset
  constructor
  · intro h hzero
    obtain ⟨rfl, rfl⟩ := h 0 0 hzero (Nat.le_refl 0) f.nonempty
    exact lastByte_eq_zero hto
  · intro h a b hab hle hb
    rw [scanRange_of_isRangeHeader hab (by unfold size at hb; omega) (by unfold size at hb; omega)]
      at hfrom hto
    unfold lastByte at hto
    refine ⟨by omega, ?_⟩
    by_cases hzero : b = 0
    · obtain rfl : a = 0 := by omega
      subst hzero
      have := h hab
      split_ifs at hto <;> omega
    · split_ifs at hto <;> omega

/-- The numbers that are refused: reading them gives another number of bytes than their difference. -/
theorem refused_iff (str : ByteString) {from_ to_ : Int} (hbad : ¬ (0 ≤ from_ ∧ from_ ≤ to_))
    (hfrom : -2 ^ 63 ≤ from_ ∧ from_ < 2 ^ 63) (hto : -2 ^ 63 ≤ to_ ∧ to_ < f.size) (hzero : to_ = 0 → f.size = 1)
    (hlong : isLong (to_ - from_ + 1)) :
    (toSizeT (to_ - from_ + 1) < 2 ^ 21 ∧ ∃ r, (seek ⟨f.content, 0⟩ from_).readrange str from_ to_ = some r ∧
        toSizeT r.2 ≠ toSizeT (to_ - from_ + 1)) ↔
      (from_ < 0 ∧ 0 ≤ to_ ∧ f.size < to_ - from_ + 1 ∧ to_ - from_ + 1 < 2 ^ 21) ∨
      (to_ < 0 ∧ 0 ≤ to_ - from_ + 1 ∧ to_ - from_ + 1 < 2 ^ 21 ∧ f.size - from_ < 2 ^ 63 ∧
        toInt f.size ≠ to_ - from_ + 1) := by
  have hsize := f.offset
  have hne := f.nonempty
  unfold size at *
  simp only [isLong, Bool.and_eq_true, decide_eq_true_eq] at hlong
  have hsmall : toSizeT (to_ - from_ + 1) < 2 ^ 21 ↔ 0 ≤ to_ - from_ + 1 ∧ to_ - from_ + 1 < 2 ^ 21 := by
    unfold toSizeT
    omega
  rw [hsmall]
  by_cases hlen : 0 ≤ to_ - from_ + 1 ∧ to_ - from_ + 1 < 2 ^ 21
  swap
  · constructor
    · exact fun h => absurd h.1 hlen
    · rintro (h | h) <;> omega
  rw [toSizeT_of_nonneg ⟨hlen.1, by omega⟩]
  by_cases hneg : to_ < 0
  · -- all of the file is read
    have hnonpos : from_ ≤ 0 := by omega
    rw [seek_nonpos hnonpos rfl]
    obtain ⟨hread, hthrown⟩ := @readrange_negative ⟨f.content, 0⟩ str from_ to_ hnonpos hneg ⟨hfrom.1, hto.1⟩ hne hsize rfl
    dsimp only at hread hthrown
    by_cases hfits : f.content.length - from_ < 2 ^ 63
    · obtain ⟨r, hr, hr2⟩ := hread hfits
      simp only [hr, Option.some.injEq, exists_eq_left', hr2]
      unfold toSizeT toInt
      omega
    · rw [hthrown (by omega)]
      simp only [reduceCtorEq, false_and, exists_false, and_false, false_iff]
      omega
  · by_cases hstart : from_ < 0
    · -- the file is read from its beginning
      rw [seek_nonpos hstart.le rfl]
      obtain ⟨n, rfl⟩ := Int.eq_ofNat_of_zero_le (Int.not_lt.1 hneg)
      obtain ⟨r, hr, hr2⟩ := @readrange_before ⟨f.content, 0⟩ str from_ n hstart (by exact_mod_cast hto.2)
        (fun h => hzero (by exact_mod_cast h)) hsize rfl hlen.2
      simp only [hr, Option.some.injEq, exists_eq_left', hr2]
      rw [toSizeT_of_nonneg (by omega)]
      omega
    · -- an empty range inside of the file
      obtain ⟨n, rfl⟩ := Int.eq_ofNat_of_zero_le (Int.not_lt.1 hneg)
      obtain rfl : from_ = (n + 1 : Nat) := by omega
      have hseek : (seek ⟨f.content, 0⟩ (n + 1 : Nat)).content = f.content := rfl
      obtain ⟨r, hr, hr2⟩ := @readrange_empty (seek ⟨f.content, 0⟩ (n + 1 : Nat)) str n
        (by rw [hseek]; exact_mod_cast hto.2) (fun h => hseek ▸ hzero (by exact_mod_cast h)) hsize
      simp only [hr, Option.some.injEq, exists_eq_left', hr2]
      rw [toSizeT_of_nonneg (by omega)]
      omega

/-- A request with a range is answered exactly, or refused, if and only if its numbers are of one of the
    three kinds. -/
theorem range_response_exact_iff (m : HttpMessage) (hfresh : FreshResponse m) (f : DiskFile)
    (path date value : ByteString) (req : HttpRequest) (hrange : req.headers.get (ascii "Range") = some value) :
    (∃ reply, responseFile m f path req.getRange date = some reply ∧ exactReply f value reply) ↔
      rangeAnswered f path value := by
  have hget : req.getRange = some (scanRange (cStr value)) := by rw [HttpRequest.getRange, hrange, Option.map_some]
  have hbounds := scanRange_bounds (cStr value)
  have hlt := @lastByte_lt f (scanRange (cStr value)).2
  have hlast : lastByte (scanRange (cStr value)).2 f.size = 0 → f.size = 1 := lastByte_eq_zero
  have hlow : -2 ^ 63 ≤ lastByte (scanRange (cStr value)).2 f.size := by
    unfold lastByte
    split_ifs <;> omega
  have hasked := @range_as_asked_iff f value
  rw [hget]
  unfold responseFile rangeAnswered
  dsimp only
  generalize (scanRange (cStr value)).1 = from_ at *
  generalize lastByte (scanRange (cStr value)).2 f.size = to_ at *
  have hsize : f.size < 2 ^ 63 := f.offset
  by_cases hlong : isLong (to_ - from_ + 1) = false
  · rw [if_pos hlong]
    simp only [isLong, Bool.and_eq_false_iff, decide_eq_false_iff_not] at hlong
    simp only [reduceCtorEq, false_and, exists_false, false_iff]
    omega
  rw [if_neg hlong]
  by_cases hinside : 0 ≤ from_ ∧ from_ ≤ to_
  · obtain ⟨a, rfl⟩ := Int.eq_ofNat_of_zero_le hinside.1
    obtain ⟨b, rfl⟩ := Int.eq_ofNat_of_zero_le (hinside.1.trans hinside.2)
    have hab : a ≤ b := by omega
    have hb : b < f.size := by omega
    obtain ⟨reply, hreply, hsent⟩ := sendFileRange_inside hfresh f path date hab hb (by omega)
    have hiff := hsent.exactReply_iff value hab hb
    rw [hasked rfl rfl] at hiff
    constructor
    · rintro ⟨reply', hreply', hexact⟩
      obtain rfl : reply = reply' := Option.some.inj (hreply.symm.trans hreply')
      exact .inl ⟨hinside.1, hinside.2, hiff.1 hexact⟩
    · rintro (⟨-, -, hanswered⟩ | h | h)
      · exact ⟨reply, hreply, hiff.2 hanswered⟩
      · omega
      · omega
  · have houtside := sendFileRange_outside hfresh f path date value (seek ⟨f.content, 0⟩ from_) hinside
    rw [refused_iff m.body hinside hbounds.1 ⟨hlow, hlt⟩ (by exact_mod_cast hlast) (by simpa using hlong)] at houtside
    constructor
    · exact fun h => .inr (houtside.1 h)
    · rintro (h | h)
      · exact absurd ⟨h.1, h.2.1⟩ hinside
      · exact houtside.2 h

def rangeRequest (value : ByteString) : HttpRequest :=
  { newRequest with headers := newRequest.headers.set (ascii "Range") value }

theorem get_rangeRequest (value : ByteString) : (rangeRequest value).headers.get (ascii "Range") = some value :=
  get_set_self _ _ _

theorem freshResponse_newResponse : FreshResponse newResponse := ⟨rfl, rfl, rfl, rfl, rfl, rfl, rfl⟩

def helloFile : DiskFile := ⟨ascii "hello", by decide, by decide⟩

theorem range_response_exact_iff_hello : (rangeRequest (ascii "bytes=1-3")).headers.get (ascii "Range") =
      some (ascii "bytes=1-3") ∧ rangeAnswered helloFile (ascii "/a.txt") (ascii "bytes=1-3") ∧
    ∃ reply, responseFile newResponse helloFile (ascii "/a.txt") (rangeRequest (ascii "bytes=1-3")).getRange [] =
      some reply ∧ exactReply helloFile (ascii "bytes=1-3") reply := by
  have hanswered : rangeAnswered helloFile (ascii "/a.txt") (ascii "bytes=1-3") := by
    refine .inl ⟨by decide +kernel, by decide +kernel, by decide +kernel, fun hzero => ?_⟩
    have hscan := scanRange_of_isRangeHeader hzero (by decide) (by decide)
    exact absurd (congrArg Prod.fst hscan) (by decide +kernel)
  exact ⟨get_rangeRequest _, hanswered, (range_response_exact_iff newResponse freshResponse_newResponse helloFile
    (ascii "/a.txt") [] (ascii "bytes=1-3") (rangeRequest (ascii "bytes=1-3")) (get_rangeRequest _)).2 hanswered⟩

/-- The first byte of a file is asked for, and all of it is sent. -/
theorem first_byte_answered_by_file : (rangeRequest (ascii "bytes=0-0")).headers.get (ascii "Range") =
      some (ascii "bytes=0-0") ∧ isRangeHeader (ascii "bytes=0-0") 0 0 ∧
    ∃ reply, responseFile newResponse helloFile (ascii "/a.txt") (rangeRequest (ascii "bytes=0-0")).getRange [] =
      some reply ∧ reply.status = 206 ∧ reply.range = some (0, 4, 5) ∧
      ¬ exactReply helloFile (ascii "bytes=0-0") reply := by
  have hheader : isRangeHeader (ascii "bytes=0-0") 0 0 :=
    ⟨ascii "0", ascii "0", by decide, by decide, by decide +kernel, by decide +kernel, by decide +kernel,
      by decide +kernel, by decide +kernel⟩
  obtain ⟨reply, hreply, hfacts⟩ := Option.map_eq_some_iff.1
    (show (responseFile newResponse helloFile (ascii "/a.txt") (rangeRequest (ascii "bytes=0-0")).getRange []).map
      (fun reply => (reply.status, reply.range)) = some (206, some (0, 4, 5)) by decide +kernel)
  simp only [Prod.mk.injEq] at hfacts
  obtain ⟨hstatus, hrange⟩ := hfacts
  refine ⟨get_rangeRequest _, hheader, reply, hreply, hstatus, hrange, ?_⟩
  rintro (hother | ⟨from_, to_, -, -, hrange', -, -, -, hexact⟩)
  · exact hother hstatus
  · obtain ⟨rfl, rfl⟩ := hexact 0 0 hheader (Nat.le_refl 0) (by decide)
    rw [hrange] at hrange'
    exact absurd hrange' (by decide)

end HvVerified.Http.Proofs
