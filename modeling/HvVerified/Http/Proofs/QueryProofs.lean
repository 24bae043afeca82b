import HvVerified.Http.HttpContent
import Mathlib.Data.List.TakeWhile

/-!
# Proofs: the pairs of a query string

The loop is followed piece by piece. The length of a value is not reset after a piece without a key, so that
the value of the next pair is too long by the values of the pieces without a key right before it. Apart from
that `unescape` is percent decoding, except for the plus sign, which it takes for a blank.
-/

namespace HvVerified.Http.Proofs

open Base Lib List QueryScan

/-- What has to hold for the pieces, where the values of pieces without a key have had the length `extra` since the last
    pair: a piece with a key has no plus sign, and there are no such values before it. Only one byte does no harm, before
    the last piece. -/
def queryClean : Nat → List ByteString → Bool
  | _, [] => true
  | extra, piece :: rest =>
    if keyOf 61 piece = [] then queryClean (extra + (valueOf 61 piece).length) rest
    else 43 ∉ piece && (extra = 0 || extra = 1 && 61 ∈ piece && rest = []) && queryClean 0 rest

/-! ## Decoding -/

theorem unescape_cons {b : UInt8} (hpercent : b ≠ 37) (hplus : b ≠ 43) (s : ByteString) :
    unescape (b :: s) = b :: unescape s := by
  rcases s with _ | ⟨h, _ | ⟨l, s⟩⟩ <;> simp [unescape, hpercent, hplus]

theorem unescape_append_amp (s t : ByteString) : unescape (s ++ 38 :: t) = unescape s ++ 38 :: unescape t := by
  have hamp : isHex 38 = false := by decide
  induction s using unescape.induct with
  | case1 => exact unescape_cons (by decide) (by decide) t
  | case2 b h l rest hhex ih => simp only [cons_append, unescape, if_pos hhex, ih]
  | case3 b h l rest hhex ih =>
    rw [cons_append, cons_append, cons_append, unescape, if_neg hhex, unescape, if_neg hhex]
    exact congrArg _ ih
  | case4 b h ih =>
    rw [cons_append, cons_append, nil_append, unescape, if_neg (by simp [hamp])]
    exact congrArg _ ih
  | case5 b =>
    cases t with
    | nil => simp [unescape]
    | cons x t =>
      rw [cons_append, nil_append, unescape, if_neg (by simp [hamp]), unescape_cons (by decide) (by decide)]
      simp [unescape]

theorem hexVal_of_isHex {b : UInt8} (h : isHex b) :
    43 ≠ b ∧ ∃ x < 16, hexVal b = some x ∧ hex2i b = UInt8.ofNat x := by
  have hall : ∀ b : Fin 256, isHex (.ofFin b) →
      43 ≠ UInt8.ofFin b ∧ ∃ x < 16, hexVal (.ofFin b) = some x ∧ hex2i (.ofFin b) = UInt8.ofNat x := by
    decide +kernel
  exact hall b.toFin h

theorem isHex_eq (b : UInt8) : isHex b = (hexVal b).isSome := by
  have hall : ∀ b : Fin 256, isHex (.ofFin b) = (hexVal (.ofFin b)).isSome := by decide +kernel
  exact hall b.toFin

/-- `unescape` is percent decoding for a text without a plus sign, and only then; the length is the same. -/
theorem unescape_percentDecode (s : ByteString) : (unescape s).length = (percentDecode s).length ∧
    (unescape s = percentDecode s ↔ 43 ∉ s) := by
  have hvalue : ∀ x y : Fin 16, (UInt8.ofNat x.val <<< 4) ||| UInt8.ofNat y.val = UInt8.ofNat (16 * x.val + y.val) := by
    decide +kernel
  have hplain : ∀ b : UInt8, (if b = 43 then 32 else b) = b ↔ 43 ≠ b := by
    intro b
    split_ifs with h
    · simp [h]
    · simpa using Ne.symm h
  induction s using unescape.induct with
  | case1 => simp [unescape, percentDecode]
  | case2 b h l rest hhex ih =>
    obtain ⟨rfl, hh, hl⟩ := hhex
    obtain ⟨hne, x, hx, hxval, hxcode⟩ := hexVal_of_isHex hh
    obtain ⟨hne', y, hy, hyval, hycode⟩ := hexVal_of_isHex hl
    rw [unescape, if_pos ⟨rfl, hh, hl⟩, percentDecode, if_pos (by simp [hxval, hyval]), hxcode, hycode, hxval, hyval]
    rw [hvalue ⟨x, hx⟩ ⟨y, hy⟩]
    simpa [hne, hne'] using ih
  | case3 b h l rest hhex ih =>
    have hdecode : percentDecode (b :: h :: l :: rest) = b :: percentDecode (h :: l :: rest) := by
      rw [percentDecode, if_neg (by simpa only [isHex_eq] using hhex)]
    rw [unescape, if_neg hhex, hdecode, length_cons, length_cons, ih.1, cons.injEq, hplain, ih.2]
    exact ⟨rfl, by simp⟩
  | case4 b h ih =>
    have hone : unescape [h] = [h] ↔ 43 ≠ h := by
      rw [unescape, cons.injEq, hplain]
      simp
    rw [unescape, percentDecode, cons.injEq, hplain, hone]
    · simp [unescape]
    · simp
  | case5 b =>
    rw [unescape, percentDecode, cons.injEq, hplain]
    · simp
    · simp

theorem unescape_eq_iff {s : ByteString} : unescape s = percentDecode s ↔ 43 ∉ s := (unescape_percentDecode s).2

/-! ## Pieces -/

/-- A text is its first piece, followed by a separator and a shorter text if there is one. -/
@[elab_as_elim]
theorem pieces_induction (sep : UInt8) {motive : ByteString → Prop} (last : ∀ piece, sep ∉ piece → motive piece)
    (cons : ∀ piece rest, sep ∉ piece → motive rest → motive (piece ++ sep :: rest)) (s : ByteString) : motive s := by
  induction hn : s.length using Nat.strongRecOn generalizing s with
  | ind n ih =>
    by_cases h : sep ∈ s
    · obtain ⟨piece, rest, rfl, hpiece⟩ := eq_append_cons_of_mem h
      exact cons piece rest hpiece (ih rest.length (by simp [← hn]; omega) rest rfl)
    · exact last s h

section Scan

variable {α : Type} {kvKv kV : UInt8} {store : QueryScan → List α} {next : QueryScan → ByteString → QueryScan}

theorem scan_key : ∀ {key : ByteString} {q : QueryScan} (rest : ByteString), q.inValue = false → kvKv ∉ key →
    kV ∉ key → scanPairs kvKv kV store next q (key ++ rest) =
      scanPairs kvKv kV store next { q with keyLen := q.keyLen + key.length } rest := by
  intro key
  induction key with
  | nil => exact fun _ _ _ _ => rfl
  | cons b key ih =>
    intro q rest hq hamp heq
    rw [mem_cons, not_or] at hamp heq
    rw [cons_append, scanPairs, if_neg (Ne.symm hamp.1), if_neg (fun h => heq.1 h.1.symm), if_neg (by simp [hq])]
    refine (ih (q := { q with keyLen := q.keyLen + 1 }) rest hq hamp.2 heq.2).trans ?_
    rw [length_cons, Nat.add_assoc, Nat.add_comm 1]

theorem scan_value : ∀ {value : ByteString} {q : QueryScan} (rest : ByteString), q.inValue → kvKv ∉ value →
    scanPairs kvKv kV store next q (value ++ rest) =
      scanPairs kvKv kV store next { q with valueLen := q.valueLen + value.length } rest := by
  intro value
  induction value with
  | nil => exact fun _ _ _ => rfl
  | cons b value ih =>
    intro q rest hq hamp
    rw [mem_cons, not_or] at hamp
    rw [cons_append, scanPairs, if_neg (Ne.symm hamp.1), if_neg (by simp [hq]), if_pos hq]
    refine (ih (q := { q with valueLen := q.valueLen + 1 }) rest hq hamp.2).trans ?_
    rw [length_cons, Nat.add_assoc, Nat.add_comm 1]

theorem keyOf_of_mem {key value : ByteString} (h : kV ∉ key) :
    keyOf kV (key ++ kV :: value) = key ∧ valueOf kV (key ++ kV :: value) = value := by
  have hall : ∀ b ∈ key, decide (b ≠ kV) := fun b hb => decide_eq_true fun heq => h (heq ▸ hb)
  unfold keyOf valueOf
  rw [takeWhile_append_of_pos hall, dropWhile_append_of_pos hall]
  simp

theorem keyOf_of_notMem {piece : ByteString} (h : kV ∉ piece) : keyOf kV piece = piece ∧ valueOf kV piece = [] := by
  have hall : ∀ b ∈ piece, decide (b ≠ kV) := fun b hb => decide_eq_true fun heq => h (heq ▸ hb)
  unfold keyOf valueOf
  rw [takeWhile_eq_self_iff.2 hall, dropWhile_eq_nil_iff.2 hall]
  exact ⟨rfl, rfl⟩

theorem notMem_plus (piece : ByteString) : 43 ∉ piece ↔ 43 ∉ keyOf 61 piece ∧ 43 ∉ valueOf 61 piece := by
  by_cases hmem : 61 ∈ piece
  · obtain ⟨key, value, rfl, hkey⟩ := eq_append_cons_of_mem hmem
    rw [(keyOf_of_mem hkey).1, (keyOf_of_mem hkey).2]
    simp
  · rw [(keyOf_of_notMem hmem).1, (keyOf_of_notMem hmem).2]
    simp

/-- The variables behind a piece. -/
def behindPiece (kV : UInt8) (q : QueryScan) (piece rest : ByteString) : QueryScan :=
  { q with
    inValue := decide (kV ∈ piece)
    keyLen := q.keyLen + (keyOf kV piece).length
    valueLen := q.valueLen + (valueOf kV piece).length
    value := if kV ∈ piece then valueOf kV piece ++ rest else q.value }

theorem scan_piece {q : QueryScan} {piece : ByteString} (rest : ByteString) (hne : kvKv ≠ kV) (hq : q.inValue = false)
    (hamp : kvKv ∉ piece) : scanPairs kvKv kV store next q (piece ++ rest) =
      scanPairs kvKv kV store next (behindPiece kV q piece rest) rest := by
  unfold behindPiece
  by_cases heq : kV ∈ piece
  · obtain ⟨key, value, rfl, hkey⟩ := eq_append_cons_of_mem heq
    rw [mem_append, mem_cons, not_or, not_or] at hamp
    rw [append_assoc, scan_key _ hq hamp.1 hkey, cons_append, scanPairs, if_neg (Ne.symm hne), if_pos ⟨rfl, hq⟩,
      scan_value _ rfl hamp.2.2, (keyOf_of_mem hkey).1, (keyOf_of_mem hkey).2]
    simp
  · rw [scan_key _ hq hamp heq, (keyOf_of_notMem heq).1, (keyOf_of_notMem heq).2]
    simp [heq, hq]

end Scan

/-- The variables before a piece. The value may be that of an earlier piece. -/
structure AtPiece (q : QueryScan) (s : ByteString) : Prop where
  inValue : q.inValue = false
  keyLen : q.keyLen = 0
  key : q.key = s
  value : q.valueLen ≠ 0 → q.value ≠ []

variable {q : QueryScan} {piece rest : ByteString}

theorem atPiece_next (hq : AtPiece q (piece ++ 38 :: rest)) :
    AtPiece ((behindPiece 61 q piece (38 :: rest)).next rest) rest := by
  refine ⟨rfl, rfl, rfl, fun hlen => ?_⟩
  by_cases heq : 61 ∈ piece
  · simp [QueryScan.next, behindPiece, heq]
  · simp only [QueryScan.next, behindPiece, if_neg heq, (keyOf_of_notMem heq).2] at hlen ⊢
    refine hq.value fun hzero => hlen ?_
    simp [hzero]

theorem stdString_own_iff {value rest : ByteString} {extra : Nat} (hrest : rest = [] ∨ ∃ t, rest = 38 :: t) :
    (stdString (value ++ rest) (extra + value.length)).map unescape = some (percentDecode value) ↔
      43 ∉ value ∧ (extra = 0 ∨ extra = 1 ∧ rest = []) := by
  unfold stdString
  rcases hrest with rfl | ⟨t, rfl⟩
  · rw [append_nil, take_of_length_le (Nat.le_add_left ..)]
    split_ifs with hle
    · rw [Option.map_some, Option.some.injEq, unescape_eq_iff]
      exact (and_iff_left (by simp; omega)).symm
    · simp
      omega
  · cases extra with
    | zero => simp [Nat.add_assoc, unescape_eq_iff]
    | succ extra =>
      have htake : (value ++ 38 :: t).take (extra + 1 + value.length) = value ++ 38 :: t.take extra := by
        rw [Nat.add_comm, take_length_add_append, take_succ_cons]
      have hne : unescape (value ++ 38 :: t.take extra) ≠ percentDecode value := by
        intro heq
        have hlength := congrArg length heq
        rw [unescape_append_amp, length_append, (unescape_percentDecode value).1] at hlength
        simp at hlength
      rw [htake]
      split_ifs <;> simp [hne]

theorem stdString_stale_iff {p : ByteString} {extra : Nat} (hp : extra ≠ 0 → p ≠ []) :
    (stdString p extra).map unescape = some [] ↔ extra = 0 := by
  unfold stdString
  cases extra with
  | zero => simp [unescape]
  | succ extra =>
    obtain ⟨b, p, rfl⟩ := exists_cons_of_ne_nil (hp (Nat.succ_ne_zero _))
    rw [take_succ_cons]
    split_ifs
    · rcases p.take extra with _ | ⟨h, _ | ⟨l, t⟩⟩ <;> simp [unescape]
      split_ifs <;> simp
    · simp

/-- What a piece with a key stores. What comes behind it is empty or starts with an ampersand, and the value is that
    of an earlier piece if the piece has none. -/
theorem store_behindPiece (hq : AtPiece q (piece ++ rest)) (hrest : rest = [] ∨ ∃ t, rest = 38 :: t)
    (hne : keyOf 61 piece ≠ []) : ∃ value, (behindPiece 61 q piece rest).store =
        [(some (unescape (keyOf 61 piece)), value)] ∧
      (value = some (percentDecode (valueOf 61 piece)) ↔
        43 ∉ valueOf 61 piece ∧ (q.valueLen = 0 ∨ q.valueLen = 1 ∧ 61 ∈ piece ∧ rest = [])) := by
  have hstore : stdString q.key (keyOf 61 piece).length = some (keyOf 61 piece) := by
    have hpre : keyOf 61 piece <+: q.key := hq.key ▸ ( takeWhile_prefix _).trans ( prefix_append ..)
    rw [stdString, if_pos (hpre.length_le.trans (Nat.le_succ _)), ← prefix_iff_eq_take.1 hpre]
  rw [store, behindPiece, hq.keyLen, Nat.zero_add, if_pos (by simpa using hne), hstore]
  refine ⟨_, rfl, ?_⟩
  by_cases heq : 61 ∈ piece
  · rw [if_pos heq, stdString_own_iff hrest]
    simp [heq]
  · rw [if_neg heq, (keyOf_of_notMem heq).2, length_nil, Nat.add_zero]
    simpa [heq, percentDecode] using stdString_stale_iff hq.value

/-- The assignments of the loop have the keys of the pieces, and are those of the reference iff the pieces are clean. -/
theorem scanQuery_iff (s : ByteString) : ∀ {q : QueryScan}, AtPiece q s →
    (scanPairs 38 61 store next q s).map Prod.fst =
        ((s.splitOn 38).filter (keyOf 61 · ≠ [])).map (fun piece => some (unescape (keyOf 61 piece))) ∧
      (scanPairs 38 61 store next q s = (queryPairs s).map (Prod.map some some) ↔
        queryClean q.valueLen (s.splitOn 38)) := by
  induction s using pieces_induction 38 with
  | last piece hpiece =>
    intro q hq
    rw [← append_nil piece] at hq
    rw [← append_nil piece, scan_piece _ (by decide) hq.inValue hpiece, append_nil, scanPairs, queryPairs,
      splitOn_eq_singleton hpiece]
    by_cases hne : keyOf 61 piece = []
    · simp [store, behindPiece, queryClean, hq.keyLen, hne]
    · obtain ⟨value, hstore, hvalue⟩ := store_behindPiece hq (.inl rfl) hne
      rw [hstore, queryClean, if_neg hne]
      simp [queryClean, hne, hvalue, unescape_eq_iff, notMem_plus piece, and_assoc]
  | cons piece rest hpiece ih =>
    intro q hq
    obtain ⟨hkeys, hrest⟩ := ih (atPiece_next hq)
    rw [scan_piece _ (by decide) hq.inValue hpiece, scanPairs, if_pos rfl, queryPairs,
      splitOn_append_cons_self_of_not_mem hpiece, queryClean]
    by_cases hne : keyOf 61 piece = []
    · rw [if_pos hne, filter_cons_of_neg (by simp [hne]), ← queryPairs]
      simp only [store, QueryScan.next, behindPiece, hq.keyLen, hne, length_nil, Nat.add_zero, ne_eq, not_true_eq_false,
        if_false, nil_append] at hkeys hrest ⊢
      exact ⟨hkeys, hrest⟩
    · obtain ⟨value, hstore, hvalue⟩ := store_behindPiece hq (.inr ⟨rest, rfl⟩) hne
      have hlen : ((behindPiece 61 q piece (38 :: rest)).next rest).valueLen = 0 := by
        simp [QueryScan.next, behindPiece, hq.keyLen, hne]
      rw [hlen] at hrest
      rw [if_neg hne, filter_cons_of_pos (by simp [hne]), map_cons, map_cons, ← queryPairs, hstore, singleton_append,
        map_cons, hkeys, map_cons]
      refine ⟨rfl, ?_⟩
      rw [cons.injEq, hrest]
      simp [hvalue, unescape_eq_iff, notMem_plus piece, splitOn_ne_nil, and_assoc]

/-! ## The map -/

theorem foldlM_storePair (pairs : List (ByteString × ByteString)) (kvs : ByteString → Option ByteString) :
    (pairs.map (Prod.map some some)).foldlM storePair kvs = some (pairs.foldl overwrite kvs) := by
  rw [foldlM_map]
  exact foldlM_pure

theorem storeAll_map (pairs : List (ByteString × ByteString)) :
    storeAll (pairs.map (Prod.map some some)) = some (mapOf pairs) := foldlM_storePair pairs _

theorem foldl_overwrite_of_notMem {pairs : List (ByteString × ByteString)} {key : ByteString} :
    ∀ {kvs : ByteString → Option ByteString}, key ∉ pairs.map Prod.fst → pairs.foldl overwrite kvs key = kvs key := by
  induction pairs with
  | nil => exact fun _ => rfl
  | cons pair pairs ih =>
    intro kvs h
    rw [map_cons, mem_cons, not_or] at h
    rw [foldl_cons, ih h.2, overwrite, Function.update_of_ne h.1]

/-- If no key is overwritten, the map tells the assignments. -/
theorem eq_of_storeAll {pairs : List (ByteString × ByteString)} (hnodup : (pairs.map Prod.fst).Nodup) :
    ∀ {stores : List (Option ByteString × Option ByteString)} {kvs kvs' : ByteString → Option ByteString},
      stores.map Prod.fst = pairs.map (fun pair => some pair.1) →
      stores.foldlM storePair kvs = some (pairs.foldl overwrite kvs') → stores = pairs.map (Prod.map some some) := by
  induction pairs with
  | nil =>
    intro stores kvs kvs' hkeys _
    exact map_eq_nil_iff.1 hkeys
  | cons pair pairs ih =>
    intro stores kvs kvs' hkeys h
    obtain ⟨hfresh, hnodup⟩ := nodup_cons.1 hnodup
    obtain ⟨⟨key, value⟩, stores, rfl, hkey, hrest⟩ := map_eq_cons_iff.1 hkeys
    obtain rfl : key = some pair.1 := hkey
    cases value with
    | none => simp [storePair] at h
    | some value =>
      replace h : stores.foldlM storePair (Function.update kvs pair.1 (some value)) =
        some (pairs.foldl overwrite (overwrite kvs' pair)) := h
      have hstores := ih hnodup hrest h
      rw [hstores, foldlM_storePair] at h
      have hat := congrFun (Option.some_inj.1 h) pair.1
      rw [foldl_overwrite_of_notMem hfresh, foldl_overwrite_of_notMem hfresh] at hat
      simp [overwrite] at hat
      rw [hstores, map_cons, hat]
      rfl

/-- The assignments are those of the reference, and no byte behind the terminator is used, if and only if the pieces are
    clean; the map is then that of the reference. It is in no other case if no key is overwritten or has a plus sign. -/
theorem parse_query_iff (s : IntString) :
    (parseQueryParams s = (queryPairs (queryStart s.1)).map (Prod.map some some) ↔
      queryClean 0 ((queryStart s.1).splitOn 38)) ∧
    (queryClean 0 ((queryStart s.1).splitOn 38) →
      storeAll (parseQueryParams s) = some (mapOf (queryPairs (queryStart s.1)))) ∧
    (((queryPairs (queryStart s.1)).map Prod.fst).Nodup →
      (∀ piece ∈ (queryStart s.1).splitOn 38, 43 ∉ keyOf 61 piece) →
      storeAll (parseQueryParams s) = some (mapOf (queryPairs (queryStart s.1))) →
      queryClean 0 ((queryStart s.1).splitOn 38)) := by
  obtain ⟨hkeys, hiff⟩ := scanQuery_iff (queryStart s.1) (q := { key := queryStart s.1 })
    ⟨rfl, rfl, rfl, fun h => absurd rfl h⟩
  refine ⟨hiff, fun hclean => ?_, fun hnodup hplus hmap => hiff.1 (eq_of_storeAll hnodup (hkeys.trans ?_) hmap)⟩
  · rw [parseQueryParams, hiff.2 hclean, storeAll_map]
  · rw [queryPairs, map_map]
    refine map_congr_left fun piece hpiece => congrArg some ?_
    exact unescape_eq_iff.2 (hplus piece (mem_filter.1 hpiece).1)

theorem parse_query_plain :
    (storeAll (parseQueryParams ⟨ascii "a=%31&=&b", by decide⟩)).map (fun kvs => (kvs (ascii "a"), kvs (ascii "b"))) =
      some (some (ascii "1"), some []) := by
  rw [(parse_query_iff ⟨ascii "a=%31&=&b", by decide⟩).2.1 (by decide +kernel)]
  decide +kernel

/-- In `=v&k` the value of the first piece is stored for the second one, and in `a=b+c` the plus sign is decoded. -/
theorem value_without_key_stored :
    (storeAll (parseQueryParams ⟨ascii "=v&k", by decide⟩)).map (· (ascii "k")) = some (some (ascii "v")) ∧
    mapOf (queryPairs (ascii "=v&k")) (ascii "k") = some [] ∧
    (storeAll (parseQueryParams ⟨ascii "a=b+c", by decide⟩)).map (· (ascii "a")) = some (some (ascii "b c")) ∧
    mapOf (queryPairs (ascii "a=b+c")) (ascii "a") = some (ascii "b+c") := by decide +kernel

/-! ## `splitKV` -/

section SplitKV

variable {kvKv kV : UInt8}

/-- No value comes after a piece with only a key, and no key after a piece with only a value. -/
def KvClean (kV : UInt8) (pieces : List ByteString) : Prop :=
  pieces.Pairwise fun piece later =>
    (keyOf kV piece ≠ [] → valueOf kV piece = [] → valueOf kV later = []) ∧
      (keyOf kV piece = [] → valueOf kV piece ≠ [] → keyOf kV later = [])

instance (kV : UInt8) (pieces : List ByteString) : Decidable (KvClean kV pieces) :=
  inferInstanceAs (Decidable (pieces.Pairwise _))

/-- The same with the lengths that earlier pieces have left. -/
def KvCleanFrom (kV : UInt8) (keyLen valueLen : Nat) (pieces : List ByteString) : Prop :=
  (keyLen ≠ 0 → ∀ piece ∈ pieces, valueOf kV piece = []) ∧ (valueLen ≠ 0 → ∀ piece ∈ pieces, keyOf kV piece = []) ∧
    KvClean kV pieces

/-- A pair is stored as soon as there is a key and a value; nothing may be left then. -/
theorem kvCleanFrom_cons {keyLen valueLen : Nat} (hone : keyLen = 0 ∨ valueLen = 0) (piece : ByteString)
    (pieces : List ByteString) : KvCleanFrom kV keyLen valueLen (piece :: pieces) ↔
      if keyLen + (keyOf kV piece).length ≠ 0 ∧ valueLen + (valueOf kV piece).length ≠ 0 then
        (keyLen = 0 ∧ valueLen = 0) ∧ KvCleanFrom kV 0 0 pieces
      else KvCleanFrom kV (keyLen + (keyOf kV piece).length) (valueLen + (valueOf kV piece).length) pieces := by
  unfold KvCleanFrom KvClean
  rw [pairwise_cons]
  simp only [forall_mem_cons, ne_eq, Nat.add_eq_zero_iff, length_eq_zero_iff]
  by_cases hk : keyLen = 0 <;> by_cases hv : valueLen = 0 <;> by_cases hkey : keyOf kV piece = [] <;>
    by_cases hvalue : valueOf kV piece = [] <;> simp_all

theorem stdBytes_own {s p : ByteString} (h : s <+: p) : stdBytes p s.length = some s := by
  obtain ⟨t, rfl⟩ := h
  simp [stdBytes, Nat.add_assoc]

theorem length_of_stdBytes {p s : ByteString} {len : Nat} (h : stdBytes p len = some s) : s.length = len := by
  unfold stdBytes at h
  split_ifs at h with hle
  cases h
  simpa using hle

theorem storeKV_eq_iff (hkey : q.key = piece ++ rest) (hpair : keyOf kV piece ≠ [] ∧ valueOf kV piece ≠ []) :
    (stdBytes (behindPiece kV q piece rest).key (behindPiece kV q piece rest).keyLen,
      stdBytes (behindPiece kV q piece rest).value (behindPiece kV q piece rest).valueLen) =
        (some (keyOf kV piece), some (valueOf kV piece)) ↔ q.keyLen = 0 ∧ q.valueLen = 0 := by
  rw [Prod.mk.injEq, behindPiece]
  constructor
  · rintro ⟨hk, hv⟩
    exact ⟨by simpa using length_of_stdBytes hk, by simpa using length_of_stdBytes hv⟩
  · rintro ⟨hk, hv⟩
    have hmem : kV ∈ piece := by_contra fun h => hpair.2 (keyOf_of_notMem h).2
    rw [hk, hv, Nat.zero_add, Nat.zero_add, hkey, if_pos hmem]
    exact ⟨stdBytes_own (( takeWhile_prefix _).trans ( prefix_append ..)), stdBytes_own ( prefix_append ..)⟩

/-- One piece, before pieces of which the loop stores `stores`. A store that the piece does not have a pair for cannot
    be made up for later, since every pair is stored in some way. -/
theorem kv_piece {stores pairs : List (Option ByteString × Option ByteString)} {pieces : List ByteString} {p : ByteString}
    (hone : q.keyLen = 0 ∨ q.valueLen = 0) (hkey : q.key = piece ++ rest) (hle : pairs.length ≤ stores.length)
    (hrest : stores = pairs ↔ KvCleanFrom kV ((behindPiece kV q piece rest).nextKV p).keyLen
      ((behindPiece kV q piece rest).nextKV p).valueLen pieces) :
    ((piecePair kV piece).map (Prod.map some some) ++ pairs).length ≤
        ((behindPiece kV q piece rest).storeKV ++ stores).length ∧
      ((behindPiece kV q piece rest).storeKV ++ stores = (piecePair kV piece).map (Prod.map some some) ++ pairs ↔
        KvCleanFrom kV q.keyLen q.valueLen (piece :: pieces)) := by
  rw [kvCleanFrom_cons hone]
  by_cases hstore : q.keyLen + (keyOf kV piece).length ≠ 0 ∧ q.valueLen + (valueOf kV piece).length ≠ 0
  · rw [nextKV, if_pos (by exact hstore)] at hrest
    rw [storeKV, if_pos (by exact hstore), if_pos hstore, piecePair]
    split_ifs with hpair
    · rw [map_singleton, singleton_append, singleton_append, cons.injEq, hrest, Prod.map, storeKV_eq_iff hkey hpair]
      exact ⟨Nat.succ_le_succ hle, Iff.rfl⟩
    · have hlt : ([] ++ pairs).length < stores.length + 1 := Nat.lt_succ_of_le hle
      refine ⟨hlt.le, fun heq => absurd (congrArg length heq) hlt.ne', fun hclean => absurd ?_ hpair⟩
      simpa [hclean.1] using hstore
  · rw [nextKV, if_neg (by exact hstore)] at hrest
    have hpair : ¬ (keyOf kV piece ≠ [] ∧ valueOf kV piece ≠ []) := by
      simp only [ne_eq, ← length_eq_zero_iff]
      omega
    rw [storeKV, if_neg (by exact hstore), if_neg hstore, piecePair, if_neg hpair]
    exact ⟨hle, hrest⟩

theorem scanPairs_iff (hne : kvKv ≠ kV) (s : ByteString) : ∀ {q : QueryScan}, q.keyLen = 0 ∨ q.valueLen = 0 →
    q.inValue = false → q.key = s →
    ((kvPairs s kvKv kV).map (Prod.map some some)).length ≤ (scanPairs kvKv kV storeKV nextKV q s).length ∧
    (scanPairs kvKv kV storeKV nextKV q s = (kvPairs s kvKv kV).map (Prod.map some some) ↔
      KvCleanFrom kV q.keyLen q.valueLen (s.splitOn kvKv)) := by
  induction s using pieces_induction kvKv with
  | last piece hpiece =>
    intro q hone hq hkey
    rw [← append_nil piece] at hkey
    have hlast := @kv_piece q _ [] kV [] [] [] [] hone hkey (Nat.le_refl 0)
      (iff_of_true rfl (by simp [KvCleanFrom, KvClean]))
    rw [kvPairs, splitOn_eq_singleton hpiece, ← append_nil piece, scan_piece _ hne hq hpiece, append_nil, scanPairs]
    simpa using hlast
  | cons piece rest hpiece ih =>
    intro q hone hq hkey
    have hnext : (((behindPiece kV q piece (kvKv :: rest)).nextKV rest).keyLen = 0 ∨
        ((behindPiece kV q piece (kvKv :: rest)).nextKV rest).valueLen = 0) ∧
        ((behindPiece kV q piece (kvKv :: rest)).nextKV rest).inValue = false ∧
        ((behindPiece kV q piece (kvKv :: rest)).nextKV rest).key = rest := by
      unfold nextKV
      split_ifs with hstore
      · exact ⟨.inl rfl, rfl, rfl⟩
      · exact ⟨by rwa [not_and_or, not_not, not_not] at hstore, rfl, rfl⟩
    obtain ⟨hle, hrest⟩ := ih hnext.1 hnext.2.1 hnext.2.2
    rw [scan_piece _ hne hq hpiece, scanPairs, if_pos rfl, kvPairs, splitOn_append_cons_self_of_not_mem hpiece,
      flatMap_cons, map_append]
    exact kv_piece hone hkey hle hrest

/-- The assignments are those of the reference, and no byte behind the terminator is used, if and only if no length
    that an incomplete piece has left is counted for a later pair; the map is then that of the reference. -/
theorem split_kv_iff (str : IntString) {kvKv kV : UInt8} (hne : kvKv ≠ kV) :
    (splitKVStores str kvKv kV = (kvPairs str.1 kvKv kV).map (Prod.map some some) ↔
      KvClean kV (str.1.splitOn kvKv)) ∧
    (KvClean kV (str.1.splitOn kvKv) → splitKV str kvKv kV = some (splitKVRef str.1 kvKv kV)) := by
  have hiff : splitKVStores str kvKv kV = (kvPairs str.1 kvKv kV).map (Prod.map some some) ↔
      KvClean kV (str.1.splitOn kvKv) :=
    (scanPairs_iff hne str.1 (q := { key := str.1 }) (.inl rfl) rfl rfl).2.trans (by simp [KvCleanFrom])
  refine ⟨hiff, fun hclean => ?_⟩
  rw [splitKV, hiff.2 hclean, storeAll_map]
  rfl

theorem split_kv_plain :
    (splitKV ⟨ascii "a=1&b=2", by decide⟩ 38 61).map (· (ascii "b")) = some (some (ascii "2")) := by
  rw [(split_kv_iff ⟨ascii "a=1&b=2", by decide⟩ (by decide)).2 (by decide +kernel)]
  decide +kernel

/-- The key of `k` is counted for the next piece, whose key begins with the separator. -/
theorem split_kv_stores_separator : 
    (splitKV ⟨ascii "k&=v", by decide⟩ 38 61).map (· (ascii "=")) = some (some (ascii "v")) ∧
      splitKVRef (ascii "k&=v") 38 61 (ascii "=") = none := by decide +kernel

end SplitKV

/-! ## Round trips -/

theorem unescape_escapeByte (b : UInt8) (s : ByteString) : unescape (escapeByte b ++ s) = b :: unescape s := by
  have hhex : ∀ b : Fin 256, let h := (ascii "0123456789ABCDEF").getD (UInt8.ofFin b >>> 4).toNat 0
      let l := (ascii "0123456789ABCDEF").getD (UInt8.ofFin b &&& 0xF).toNat 0
      isHex h ∧ isHex l ∧ (hex2i h <<< 4) ||| hex2i l = UInt8.ofFin b := by decide +kernel
  unfold escapeByte
  split_ifs with h
  · exact unescape_cons (by rintro rfl; revert h; decide) (by rintro rfl; revert h; decide) s
  · obtain ⟨hh, hl, hvalue⟩ := hhex b.toFin
    simp only [cons_append, nil_append]
    rw [unescape, if_pos ⟨rfl, hh, hl⟩]
    exact congrArg (· :: unescape s) hvalue

theorem unescape_escape {s : ByteString} (h : 0 ∉ s) : unescape (escape s) = s := by
  rw [escape, cStr_of_notMem h]
  clear h
  induction s with
  | nil => rfl
  | cons b s ih => rw [flatMap_cons, unescape_escapeByte, ih]

theorem notMem_escape (s : ByteString) : 38 ∉ escape s ∧ 61 ∉ escape s ∧ 63 ∉ escape s ∧ 43 ∉ escape s := by
  have hbyte : ∀ b : Fin 256, 38 ∉ escapeByte (.ofFin b) ∧ 61 ∉ escapeByte (.ofFin b) ∧ 63 ∉ escapeByte (.ofFin b) ∧
      43 ∉ escapeByte (.ofFin b) := by decide +kernel
  simp only [escape, mem_flatMap, not_exists, not_and]
  exact ⟨fun b _ => (hbyte b.toFin).1, fun b _ => (hbyte b.toFin).2.1, fun b _ => (hbyte b.toFin).2.2.1,
    fun b _ => (hbyte b.toFin).2.2.2⟩

theorem percentDecode_escape {s : ByteString} (h : 0 ∉ s) : percentDecode (escape s) = s := by
  rw [← unescape_eq_iff.2 (notMem_escape s).2.2.2, unescape_escape h]

/-- What is dumped for a pair. -/
def dumpedPair (pair : ByteString × ByteString) : ByteString := escape pair.1 ++ 61 :: escape pair.2

theorem splitOn_dumped (pairs : List (ByteString × ByteString)) : ∀ pair,
    (dumpedPair pair ++ pairs.flatMap fun pair => 38 :: dumpedPair pair).splitOn 38 = (pair :: pairs).map dumpedPair := by
  have hamp : ∀ pair, 38 ∉ dumpedPair pair := fun pair => by simp [dumpedPair, (notMem_escape _).1]
  induction pairs with
  | nil =>
    intro pair
    rw [flatMap_nil, append_nil, splitOn_eq_singleton (hamp pair)]
    rfl
  | cons next pairs ih =>
    intro pair
    rw [flatMap_cons, cons_append, splitOn_append_cons_self_of_not_mem (hamp pair), ih next]
    rfl

theorem foldl_dumpPair (pairs : List (ByteString × ByteString)) : ∀ {s : ByteString}, s ≠ [] →
    pairs.foldl dumpPair s = s ++ pairs.flatMap fun pair => 38 :: dumpedPair pair := by
  induction pairs with
  | nil => simp
  | cons pair pairs ih =>
    intro s hs
    rw [foldl_cons, ih (by simp [dumpPair])]
    simp [dumpPair, dumpedPair, hs]

theorem keyOf_dumped (pair : ByteString × ByteString) :
    keyOf 61 (dumpedPair pair) = escape pair.1 ∧ valueOf 61 (dumpedPair pair) = escape pair.2 :=
  keyOf_of_mem (notMem_escape pair.1).2.1

theorem queryClean_dumped {pairs : List (ByteString × ByteString)} (h : ∀ pair ∈ pairs, escape pair.1 ≠ []) :
    queryClean 0 (pairs.map dumpedPair) := by
  induction pairs with
  | nil => rfl
  | cons pair pairs ih =>
    have hplus : 43 ∉ dumpedPair pair := by
      rw [notMem_plus, (keyOf_dumped pair).1, (keyOf_dumped pair).2]
      exact ⟨(notMem_escape _).2.2.2, (notMem_escape _).2.2.2⟩
    rw [map_cons, queryClean, (keyOf_dumped pair).1, if_neg (h pair mem_cons_self)]
    simpa [hplus] using ih fun pair hpair => h pair (mem_cons_of_mem _ hpair)

/-- What is dumped is parsed as the pairs of the map again. -/
theorem query_params_round_trip (queryParams : List (ByteString × ByteString))
    (hkey : ∀ pair ∈ queryParams, pair.1 ≠ [] ∧ 0 ∉ pair.1) (hvalue : ∀ pair ∈ queryParams, 0 ∉ pair.2)
    (hlen : (dumpQueryParams queryParams).length < 2 ^ 31) :
    parseQueryParams ⟨dumpQueryParams queryParams, hlen⟩ = queryParams.map fun pair => (some pair.1, some pair.2) := by
  cases queryParams with
  | nil => rfl
  | cons pair pairs =>
    have hdump : dumpQueryParams (pair :: pairs) = dumpedPair pair ++ pairs.flatMap fun pair => 38 :: dumpedPair pair := by
      rw [dumpQueryParams, foldl_cons, foldl_dumpPair pairs (by simp [dumpPair])]
      simp [dumpPair, dumpedPair]
    have hsplit := splitOn_dumped pairs pair
    rw [← hdump] at hsplit
    have hne : ∀ pair' ∈ pair :: pairs, escape pair'.1 ≠ [] := fun pair' hpair hnil => (hkey pair' hpair).1 (by
      rw [← percentDecode_escape (hkey pair' hpair).2, hnil, percentDecode]
      simp)
    have hstart : queryStart (dumpQueryParams (pair :: pairs)) = dumpQueryParams (pair :: pairs) :=
      if_neg (by simp [hdump, dumpedPair, (notMem_escape _).2.2.1])
    have hclean := (scanQuery_iff (dumpQueryParams (pair :: pairs)) (q := { key := dumpQueryParams (pair :: pairs) })
      ⟨rfl, rfl, rfl, fun h => absurd rfl h⟩).2.2 (hsplit ▸ queryClean_dumped hne)
    rw [parseQueryParams, hstart, hclean, queryPairs, hsplit,
      filter_eq_self.2 (forall_mem_map.2 fun pair' hpair => by simpa [(keyOf_dumped pair').1] using hne pair' hpair),
      map_map, map_map]
    refine map_congr_left fun pair' hpair => ?_
    simp [(keyOf_dumped pair').1, (keyOf_dumped pair').2, percentDecode_escape (hkey pair' hpair).2,
      percentDecode_escape (hvalue pair' hpair), Prod.map]

theorem query_params_round_trip_reserved :
    dumpQueryParams [(ascii "a&b", ascii "1=2"), (ascii "c", [])] = ascii "a%26b=1%3D2&c=" ∧
      parseQueryParams ⟨dumpQueryParams [(ascii "a&b", ascii "1=2"), (ascii "c", [])], by decide +kernel⟩ =
        [(some (ascii "a&b"), some (ascii "1=2")), (some (ascii "c"), some [])] :=
  ⟨by decide +kernel, query_params_round_trip _ (by decide) (by decide) (by decide +kernel)⟩

end HvVerified.Http.Proofs
