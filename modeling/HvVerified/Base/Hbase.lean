import HvVerified.Base.Hstring

/-!
# `base/hbase.c`: C strings

The string functions of `hbase.c` and those of the C library that are called with them. A C string is
the list of its bytes, without the byte zero at its end.
-/

namespace HvVerified.Base

/-- `hv_strstartswith` -/
def hvStrstartswith : ByteString → ByteString → Bool
  | _, [] => true
  | [], _ :: _ => false
  | b :: str, c :: start => if b = c then hvStrstartswith str start else false

/-- The loop of `hv_strendswith`, from the ends of the two strings. -/
def endswithLoop : ByteString → ByteString → Bool
  | _, [] => true
  | [], _ :: _ => false
  | b :: str, c :: end_ => if b ≠ c then false else endswithLoop str end_

/-- `hv_strendswith` -/
def hvStrendswith (str end_ : ByteString) : Bool :=
  if str.length < end_.length then false else endswithLoop str.reverse end_.reverse

/-- `hv_wildcard_match`: at a `*` the rest of the string is not empty, so that the suffix test decides. -/
def hvWildcardMatch : ByteString → ByteString → Bool
  | [], pattern => pattern.isEmpty
  | _ :: _, [] => false
  | b :: str, c :: pattern =>
    if c = 42 then hvStrendswith (b :: str) pattern
    else if b ≠ c then false
    else hvWildcardMatch str pattern

/-- `strrchr`: the string from the last `c` on -/
def strrchr (c : UInt8) : ByteString → Option ByteString
  | [] => none
  | b :: str =>
    match strrchr c str with
    | some rest => some rest
    | none => if b = c then some (b :: str) else none

theorem hvStrstartswith_iff {str start : ByteString} : hvStrstartswith str start ↔ start <+: str := by
  induction str generalizing start with
  | nil => cases start <;> simp [hvStrstartswith]
  | cons b str ih =>
    cases start with
    | nil => simp [hvStrstartswith]
    | cons c start =>
      rw [hvStrstartswith, List.cons_prefix_cons]
      by_cases hbc : b = c
      · simp [hbc, ih]
      · simp [hbc, Ne.symm hbc]

theorem endswithLoop_eq (str end_ : ByteString) : endswithLoop str end_ = hvStrstartswith str end_ := by
  induction str generalizing end_ with
  | nil => cases end_ <;> rfl
  | cons b str ih =>
    cases end_ with
    | nil => rfl
    | cons c end_ => rw [endswithLoop, hvStrstartswith, ih, ite_not]

theorem hvStrendswith_iff {str end_ : ByteString} : hvStrendswith str end_ ↔ end_ <:+ str := by
  unfold hvStrendswith
  split_ifs with hlen
  · simp only [false_iff]
    intro hsuffix
    have := hsuffix.length_le
    omega
  · rw [endswithLoop_eq, hvStrstartswith_iff, List.reverse_prefix]

/-! ## Wildcards -/

/-- The pattern is the string, or its first `*` stands for some part of it. -/
def WildcardMatches (str pattern : ByteString) : Prop :=
  (42 ∉ pattern ∧ str = pattern) ∨ ∃ a b x, pattern = a ++ 42 :: b ∧ 42 ∉ a ∧ str = a ++ x ++ b

theorem wildcardMatches_nil {str : ByteString} : WildcardMatches str [] ↔ str = [] := by
  simp [WildcardMatches]

theorem wildcardMatches_star {str pattern : ByteString} :
    WildcardMatches str (42 :: pattern) ↔ pattern <:+ str := by
  constructor
  · rintro (⟨hnot, -⟩ | ⟨a, b, x, heq, hnot, rfl⟩)
    · simp at hnot
    · cases a with
      | nil =>
        obtain rfl : pattern = b := (List.cons.inj heq).2
        exact List.suffix_append x pattern
      | cons c a =>
        obtain rfl : 42 = c := (List.cons.inj heq).1
        simp at hnot
  · rintro ⟨x, rfl⟩
    exact .inr ⟨[], pattern, x, rfl, List.not_mem_nil, rfl⟩

theorem wildcardMatches_cons {c : UInt8} (hc : c ≠ 42) {str pattern : ByteString} :
    WildcardMatches str (c :: pattern) ↔ ∃ rest, str = c :: rest ∧ WildcardMatches rest pattern := by
  constructor
  · rintro (⟨hnot, rfl⟩ | ⟨a, b, x, heq, hnot, rfl⟩)
    · exact ⟨pattern, rfl, .inl ⟨fun h => hnot (List.mem_cons_of_mem _ h), rfl⟩⟩
    · cases a with
      | nil => exact absurd (List.cons.inj heq).1 hc
      | cons c' a =>
        obtain ⟨rfl, rfl⟩ := List.cons.inj heq
        exact ⟨a ++ x ++ b, rfl, .inr ⟨a, b, x, rfl, fun h => hnot (List.mem_cons_of_mem _ h), rfl⟩⟩
  · rintro ⟨rest, rfl, ⟨hnot, rfl⟩ | ⟨a, b, x, rfl, hnot, rfl⟩⟩
    · exact .inl ⟨by simp [hnot, hc.symm], rfl⟩
    · exact .inr ⟨c :: a, b, x, rfl, by simp [hnot, hc.symm], rfl⟩

/-- `hv_wildcard_match` decides whether a pattern matches, unless the pattern is the string followed by a
    `*`: the loop ends with the string, before the `*` is looked at. -/
theorem wildcard_match_iff (str pattern : ByteString) :
    (hvWildcardMatch str pattern ↔ WildcardMatches str pattern) ↔ ¬ (42 ∉ str ∧ pattern = str ++ [42]) := by
  induction pattern generalizing str with
  | nil => cases str <;> simp [hvWildcardMatch, wildcardMatches_nil]
  | cons c pattern ih =>
    by_cases hc : c = 42
    · subst hc
      rw [wildcardMatches_star]
      cases str with
      | nil => simp [hvWildcardMatch]
      | cons b str =>
        rw [hvWildcardMatch, if_pos rfl, hvStrendswith_iff]
        simp only [true_iff, List.cons_append, List.cons.injEq]
        rintro ⟨hnot, rfl, -⟩
        simp at hnot
    · rw [wildcardMatches_cons hc]
      cases str with
      | nil => simp [hvWildcardMatch, hc]
      | cons b str =>
        rw [hvWildcardMatch, if_neg hc]
        by_cases hb : b = c
        · subst hb
          have := ih str
          simpa [Ne.symm hc] using this
        · simp [hb, Ne.symm hb]

theorem trailing_star_needs_a_byte : hvWildcardMatch [97] [97, 42] = false ∧ WildcardMatches [97] [97, 42] :=
  ⟨by decide, .inr ⟨[97], [], [], rfl, by decide, rfl⟩⟩

end HvVerified.Base
