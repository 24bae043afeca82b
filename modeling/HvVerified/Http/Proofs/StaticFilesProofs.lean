import HvVerified.Http.HttpService

/-!
# Static files

The name of a file that the static file service opens is a directory of the service and a text that
starts with a slash. A component `..` of this text would follow a slash or a backslash, which the check of
`defaultStaticHandler` excludes, and a home page is added after a slash.
-/

namespace HvVerified.Http.Proofs

open Base Http.HttpService List

variable {s path suffix : ByteString}

/-! ## Components -/

theorem components_eq (s : ByteString) : ∃ first rest, components s = first :: rest ∧ first <+: s ∧
      ∀ x ∈ rest, (47 :: x) <:+: s ∨ (92 :: x) <:+: s := by
  induction s with
  | nil => exact ⟨[], [], rfl, prefix_rfl, by simp⟩
  | cons b s ih =>
    obtain ⟨first, rest, hsplit, hfirst, hrest⟩ := ih
    have hcons : ∀ x : ByteString, (47 :: x) <:+: s ∨ (92 :: x) <:+: s →
        (47 :: x) <:+: b :: s ∨ (92 :: x) <:+: b :: s := fun x h =>
      h.imp infix_cons infix_cons
    unfold components at hsplit ⊢
    rw [splitOnP_cons_eq_if_modifyHead, hsplit]
    split_ifs with hsep
    · refine ⟨[], first :: rest, rfl, nil_prefix, fun x hx => ?_⟩
      rcases mem_cons.1 hx with rfl | hx
      · have hstart : (b :: x) <:+: b :: s := ((prefix_cons_inj b).2 hfirst).isInfix
        simp only [Bool.or_eq_true, decide_eq_true_eq] at hsep
        rcases hsep with rfl | rfl
        · exact .inl hstart
        · exact .inr hstart
      · exact hcons x (hrest x hx)
    · exact ⟨b :: first, rest, rfl, (prefix_cons_inj b).2 hfirst, fun x hx => hcons x (hrest x hx)⟩

theorem part_of_mem_components {x : ByteString} (hx : x ≠ []) (h : x ∈ components (47 :: s)) :
    (47 :: x) <:+: 47 :: s ∨ (92 :: x) <:+: 47 :: s := by
  obtain ⟨first, rest, hsplit, -, hrest⟩ := components_eq (47 :: s)
  have hempty : components (47 :: s) = [] :: components s := by
    unfold components
    rw [splitOnP_cons_eq_if_modifyHead, if_pos (by decide)]
  rw [hempty] at hsplit h
  obtain ⟨-, rfl⟩ := cons.inj hsplit
  exact hrest x ((mem_cons.1 h).resolve_left hx)

theorem components_append (s t : ByteString) : components (s ++ 47 :: t) = components s ++ components t :=
  splitOnP_append_cons s t (by decide)

/-! ## The check -/

theorem find_isSome_of_part {needle : ByteString} (h : needle <:+: s) : (find needle s).isSome := by
  induction s with
  | nil =>
    rw [infix_nil.1 h]
    rfl
  | cons b s ih =>
    unfold find
    split_ifs with hstart
    · rfl
    · rcases infix_cons_iff.1 h with hfront | hrest
      · exact absurd ( isPrefixOf_iff_prefix.2 hfront) hstart
      · rw [Option.isSome_map]
        exact ih hrest

theorem safe_path (h : isUnsafe path = false) :
    path.head? = some 47 ∧ ¬ ascii "/.." <:+: path ∧ ¬ ascii "\\.." <:+: path := by
  simp only [isUnsafe, Bool.or_eq_false_iff, decide_eq_false_iff_not, not_not] at h
  obtain ⟨⟨hhead, hslash⟩, hbackslash⟩ := h
  refine ⟨hhead, fun hpart => ?_, fun hpart => ?_⟩
  · rw [find_isSome_of_part hpart] at hslash
    cases hslash
  · rw [find_isSome_of_part hpart] at hbackslash
    cases hbackslash

theorem dotdot_notMem_of_suffix (h : isUnsafe path = false) (hsuffix : 47 :: suffix <:+ path) :
    ascii ".." ∉ components (47 :: suffix) := by
  obtain ⟨-, hslash, hbackslash⟩ := safe_path h
  intro hmem
  rcases part_of_mem_components (by decide) hmem with hpart | hpart
  · exact hslash (hpart.trans hsuffix.isInfix)
  · exact hbackslash (hpart.trans hsuffix.isInfix)

theorem dotdot_notMem_append {page : ByteString} (hslash : suffix.getLast? = some 47)
    (hsuffix : ascii ".." ∉ components suffix) (hpage : ascii ".." ∉ components page) :
    ascii ".." ∉ components (suffix ++ page) := by
  obtain ⟨front, rfl⟩ := getLast?_eq_some_iff.1 hslash
  rw [components_append] at hsuffix
  rw [append_assoc, singleton_append, components_append, mem_append, not_or]
  exact ⟨fun hmem => hsuffix (mem_append_left _ hmem), hpage⟩

/-! ## The file -/

variable {η : Type}

theorem cStr_append (h : (0 : UInt8) ∉ s) (t : ByteString) : cStr (s ++ t) = s ++ cStr t := by
  apply takeWhile_append_of_pos
  intro b hb
  exact decide_eq_true (fun hzero => h (hzero ▸ hb))

theorem drop_location {loc : Location} (h : hvStrstartswith path loc.path) :
    ∃ suffix, path.drop (loc.path.length - 1) = 47 :: suffix := by
  obtain ⟨suffix, rfl⟩ := hvStrstartswith_iff.1 h
  obtain ⟨front, hfront⟩ := getLast?_eq_some_iff.1 loc.path_slash
  refine ⟨suffix, ?_⟩
  rw [hfront, length_append, length_singleton, Nat.add_sub_cancel, append_assoc, drop_left]
  rfl

theorem getStaticFilepath_confined {service : HttpService η} (hhome : ascii ".." ∉ components (cStr service.homePage))
    (hpath : (0 : UInt8) ∉ path) (hsafe : isUnsafe path = false)
    (hfound : service.getStaticFilepath path ≠ []) : service.Confined (cStr (service.getStaticFilepath path)) := by
  unfold getStaticFilepath at hfound ⊢
  cases hfind : service.staticDirs.find? fun loc => hvStrstartswith path loc.path with
  | none =>
    rw [hfind] at hfound
    exact absurd rfl hfound
  | some loc =>
    have hstarts : hvStrstartswith path loc.path := by simpa using find?_some hfind
    obtain ⟨suffix, hdrop⟩ := drop_location hstarts
    have hsuffix : 47 :: suffix <:+ path := hdrop ▸ drop_suffix _ _
    have hnotdot := dotdot_notMem_of_suffix hsafe hsuffix
    have hzero : (0 : UInt8) ∉ 47 :: suffix := fun h => hpath (hsuffix.subset h)
    have hdir : loc.dir = service.documentRoot ∨ ∃ other ∈ service.staticDirs, loc.dir = other.dir :=
      .inr ⟨loc, mem_of_find?_eq_some hfind, rfl⟩
    dsimp only
    rw [hdrop]
    split_ifs with hslash
    · rw [append_assoc, cStr_append loc.dir_text, cStr_append hzero]
      rw [getLast?_append, getLast?_cons, Option.some_or, ← getLast?_cons] at hslash
      exact ⟨loc.dir, _, hdir, rfl, rfl, dotdot_notMem_append hslash hnotdot hhome⟩
    · rw [cStr_append loc.dir_text, cStr_of_notMem hzero]
      exact ⟨loc.dir, _, hdir, rfl, rfl, hnotdot⟩

theorem staticFile_confined {service : HttpService η} (hroot : (0 : UInt8) ∉ service.documentRoot)
    (hhome : ascii ".." ∉ components (cStr service.homePage)) (hsafe : isUnsafe (cStr path) = false)
    (hfound : service.staticFile path ≠ []) : service.Confined (cStr (service.staticFile path)) := by
  unfold staticFile at hfound ⊢
  split_ifs at hfound ⊢ with hdir
  · obtain ⟨hhead, -⟩ := safe_path hsafe
    obtain ⟨suffix, hsuffix⟩ := head?_eq_some_iff.1 hhead
    rw [cStr_append hroot]
    refine ⟨service.documentRoot, cStr path, .inl rfl, rfl, hhead, ?_⟩
    rw [hsuffix]
    exact dotdot_notMem_of_suffix hsafe (hsuffix ▸ suffix_rfl)
  · exact getStaticFilepath_confined hhome (zero_notMem_cStr path) hsafe hfound

/-- Whatever the target of the request is, the file that is opened is in a directory of the service. -/
theorem static_files_confined (service : HttpService η) (hroot : (0 : UInt8) ∉ service.documentRoot)
    (hhome : ascii ".." ∉ components (cStr service.homePage)) (req : HttpRequest) (file : ByteString)
    (hopened : (service.defaultStaticHandler req).opened = some file) : service.Confined file := by
  unfold defaultStaticHandler at hopened
  dsimp only at hopened
  split_ifs at hopened with hunsafe hfound hrange
  all_goals cases hopened
  · exact staticFile_confined hroot hhome (Bool.eq_false_iff.2 hunsafe) hfound
  · exact staticFile_confined hroot hhome (Bool.eq_false_iff.2 hunsafe) hfound

def wwwService : HttpService Nat := static_ ⟨[], [], ascii "html", ascii "index.html", [], []⟩ (ascii "/")
    (ascii "/var/www/")

theorem static_files_confined_docs :
    (wwwService.defaultStaticHandler { newRequest with path := ascii "/%64ocs/" }).opened =
      some (ascii "/var/www/docs/index.html") ∧ wwwService.Confined (ascii "/var/www/docs/index.html") := by
  have hopened : (wwwService.defaultStaticHandler { newRequest with path := ascii "/%64ocs/" }).opened =
      some (ascii "/var/www/docs/index.html") := by decide +kernel
  exact ⟨hopened, static_files_confined wwwService (by decide +kernel) (by decide +kernel) _ _ hopened⟩

end HvVerified.Http.Proofs
