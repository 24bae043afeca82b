import HvVerified.Http.HttpService

/-!
# The router

The loop of `GetRoute` accepts the paths that the pattern stands for, except where the path ends before
the star of the pattern. The search through the table ends at the first pattern that is accepted and has
the method, or has neither the method nor a field.
-/

namespace HvVerified.Http.Proofs

open Base Http.HttpService List RoutePattern

variable {ks : ByteString}

/-! ## Patterns -/

theorem setParam_ne_nil (key value : ByteString) (params : List (ByteString × ByteString)) :
    setParam key value params ≠ [] := by
  cases params with
  | nil => simp [setParam]
  | cons entry rest =>
    unfold setParam
    split_ifs <;> simp

theorem slash_notMem_takeWhile (s : ByteString) : (47 : UInt8) ∉ s.takeWhile (· ≠ 47) := fun h => by
  simpa using all_eq_true.1 all_takeWhile 47 h

theorem head_dropWhile_slash (s : ByteString) :
    s.dropWhile (· ≠ 47) = [] ∨ (s.dropWhile (· ≠ 47)).head? = some 47 := by
  induction s with
  | nil => exact .inl rfl
  | cons b s ih =>
    by_cases hb : b = 47
    · right
      simp [hb]
    · rw [dropWhile_cons_of_pos (by simp [hb])]
      exact ih

theorem segment_unique {s segment path : ByteString} (hs : s = segment ++ path) (hsegment : (47 : UInt8) ∉ segment)
    (hpath : path = [] ∨ path.head? = some 47) : path = s.dropWhile (· ≠ 47) := by
  subst hs
  have hall : ∀ b ∈ segment, decide (b ≠ 47) := by
    intro b hb
    exact decide_eq_true (fun h => hsegment (h ▸ hb))
  rw [dropWhile_append_of_pos hall]
  rcases hpath with rfl | hhead
  · rfl
  · obtain ⟨rest, rfl⟩ : ∃ rest, path = 47 :: rest := by
      cases path with
      | nil => cases hhead
      | cons b rest =>
        cases hhead
        exact ⟨rest, rfl⟩
    simp

theorem field_iff {P : ByteString → Prop} {v : UInt8} {vs : ByteString} :
    (∃ segment path', v :: vs = 47 :: (segment ++ path') ∧ (47 : UInt8) ∉ segment ∧
      (path' = [] ∨ path'.head? = some 47) ∧ P path') ↔ v = 47 ∧ P (vs.dropWhile (· ≠ 47)) := by
  constructor
  · rintro ⟨segment, path', heq, hsegment, hpath, hP⟩
    obtain ⟨rfl, hvs⟩ := cons.inj heq
    rw [← segment_unique hvs hsegment hpath]
    exact ⟨rfl, hP⟩
  · rintro ⟨rfl, hP⟩
    exact ⟨vs.takeWhile (· ≠ 47), vs.dropWhile (· ≠ 47), by rw [takeWhile_append_dropWhile],
      slash_notMem_takeWhile vs, head_dropWhile_slash vs, hP⟩

theorem ofText_nil : ofText [] = .done := by rw [ofText]

theorem ofText_star (ks : ByteString) : ofText (42 :: ks) = .star ks := by
  rw [ofText, if_pos rfl]

theorem ofText_field (h : opensField ks) : ofText (47 :: ks) = .field (.ofText (ks.tail.dropWhile (· ≠ 47))) := by
  rw [ofText, if_neg (by decide), if_pos ⟨rfl, h⟩]

theorem ofText_literal {k : UInt8} (hstar : k ≠ 42) (hfield : ¬ (k = 47 ∧ opensField ks)) :
    ofText (k :: ks) = .literal k (.ofText ks) := by
  rw [ofText, if_neg hstar, if_neg hfield]

theorem ofText_cases (k : UInt8) (ks : ByteString) : (k = 42 ∧ ofText (k :: ks) = .star ks) ∨
    (k = 47 ∧ opensField ks ∧ ofText (k :: ks) = .field (.ofText (ks.tail.dropWhile (· ≠ 47)))) ∨
    (k ≠ 42 ∧ ¬ (k = 47 ∧ opensField ks) ∧ ofText (k :: ks) = .literal k (.ofText ks)) := by
  by_cases hstar : k = 42
  · subst hstar
    exact .inl ⟨rfl, ofText_star ks⟩
  · by_cases hfield : k = 47 ∧ opensField ks
    · obtain ⟨rfl, hopens⟩ := hfield
      exact .inr (.inl ⟨rfl, hopens, ofText_field hopens⟩)
    · exact .inr (.inr ⟨hstar, hfield, ofText_literal hstar hfield⟩)

theorem matches_nil {k : UInt8} (h : (ofText (k :: ks)).Matches []) : (ofText (k :: ks)).EndsAtStar [] := by
  rcases ofText_cases k ks with ⟨-, heq⟩ | ⟨-, -, heq⟩ | ⟨-, -, heq⟩
  · rw [heq] at h ⊢
    obtain ⟨text, htext⟩ := h
    exact ⟨(append_eq_nil_iff.1 htext.symm).2, rfl⟩
  · rw [heq] at h
    obtain ⟨segment, path', hpath, -⟩ := h
    cases hpath
  · rw [heq] at h
    obtain ⟨path', hpath, -⟩ := h
    cases hpath

/-- The loop accepts what the pattern stands for, unless the path ends at the star. -/
theorem matchPattern_iff (kp vp : ByteString) (params : List (ByteString × ByteString)) :
    (matchPattern kp vp params).1 ↔
      (ofText kp).Matches vp ∧ ¬ (ofText kp).EndsAtStar vp := by
  fun_induction matchPattern kp vp params with
  | case1 params ks v vs =>
    rw [ofText_star, hvStrendswith_iff]
    constructor
    · rintro ⟨text, htext⟩
      exact ⟨⟨text, htext.symm⟩, fun h => (by cases h.2)⟩
    · rintro ⟨⟨text, htext⟩, -⟩
      exact ⟨text, htext.symm⟩
  | case2 params k ks v vs hstar hne =>
    -- the characters differ, also where the pattern has a field
    refine ⟨nofun, fun ⟨h, _⟩ => ?_⟩
    rcases ofText_cases k ks with ⟨hk, -⟩ | ⟨rfl, -, heq⟩ | ⟨-, -, heq⟩
    · exact absurd hk hstar
    · rw [heq] at h
      obtain ⟨segment, path', hpath, -⟩ := h
      exact absurd (cons.inj hpath).1.symm hne
    · rw [heq] at h
      obtain ⟨path', hpath, -⟩ := h
      exact absurd (cons.inj hpath).1.symm hne
  | case3 params k ks v vs hstar heq hfield ih =>
    obtain ⟨rfl, hopens⟩ := hfield
    obtain rfl : v = 47 := (not_not.1 heq).symm
    rw [ih, ofText_field hopens]
    simp only [RoutePattern.Matches, RoutePattern.EndsAtStar, field_iff, true_and]
  | case4 params k ks v vs hstar heq hfield ih =>
    obtain rfl : k = v := not_not.1 heq
    rw [ih, ofText_literal hstar hfield]
    simp only [RoutePattern.Matches, RoutePattern.EndsAtStar, cons.injEq, true_and, exists_eq_left']
  | case5 params kp vp hend =>
    cases kp with
    | nil =>
      rw [ofText_nil]
      simp [RoutePattern.Matches, RoutePattern.EndsAtStar]
    | cons k ks =>
      cases vp with
      | nil =>
        refine ⟨nofun, fun ⟨h, hno⟩ => absurd (matches_nil h) hno⟩
      | cons v vs => exact absurd rfl (hend k ks v vs rfl)

theorem matchPattern_params {kp vp : ByteString} {params : List (ByteString × ByteString)}
    (h : (matchPattern kp vp params).1) :
    (matchPattern kp vp params).2 = [] ↔ params = [] ∧ (ofText kp).hasField = false := by
  fun_induction matchPattern kp vp params with
  | case1 params ks v vs => simp [ofText_star, hasField]
  | case2 params k ks v vs hstar hne => cases h
  | case3 params k ks v vs hstar heq hfield ih =>
    obtain ⟨rfl, hopens⟩ := hfield
    rw [ih h, ofText_field hopens]
    simp [setParam_ne_nil, hasField]
  | case4 params k ks v vs hstar heq hfield ih =>
    rw [ih h, ofText_literal hstar hfield]
    rfl
  | case5 params kp vp hend =>
    simp only [Bool.and_eq_true, List.isEmpty_iff] at h
    obtain ⟨rfl, -⟩ := h
    simp [ofText_nil, hasField]

/-! ## The table -/

variable {η : Type} {req : HttpRequest} {path : ByteString}

theorem findRoute_cons (entry : PathHandlers η) (rest : List (PathHandlers η)) :
    (entry.pattern.Matches path ∧ ¬ entry.pattern.EndsAtStar path ∧ ∃ handler, (req.method, handler) ∈ entry.methods ∧
        (findRoute req path (entry :: rest)).status = 0 ∧
        (findRoute req path (entry :: rest)).handler = some handler) ∨
    (entry.pattern.Matches path ∧ ¬ entry.pattern.EndsAtStar path ∧ ¬ entry.Handles req.method ∧
        entry.pattern.hasField = false ∧ (findRoute req path (entry :: rest)).status = 405) ∨
    ((entry.pattern.Matches path → (entry.pattern.EndsAtStar path ∨
          ¬ entry.Handles req.method ∧ entry.pattern.hasField)) ∧
        findRoute req path (entry :: rest) = findRoute req path rest) := by
  have hmatch := matchPattern_iff (cStr entry.path) path []
  have hparams := @matchPattern_params (cStr entry.path) path []
  rw [findRoute]
  by_cases haccept : (matchPattern (cStr entry.path) path []).1
  · obtain ⟨hmatches, hends⟩ := hmatch.1 haccept
    rw [if_pos haccept]
    cases hfind : entry.methods.find? fun h => h.1 = req.method with
    | some h =>
      have hmethod : h.1 = req.method := by simpa using find?_some hfind
      exact .inl ⟨hmatches, hends, h.2, hmethod ▸ mem_of_find?_eq_some hfind, rfl, rfl⟩
    | none =>
      have hlacks : ¬ entry.Handles req.method := by
        rintro ⟨handler, hmem⟩
        simpa using find?_eq_none.1 hfind _ hmem
      split_ifs with hnone
      · exact .inr (.inl ⟨hmatches, hends, hlacks, ((hparams haccept).1 hnone).2, rfl⟩)
      · refine .inr (.inr ⟨fun _ => .inr ⟨hlacks, ?_⟩, rfl⟩)
        by_contra hfield
        exact hnone ((hparams haccept).2 ⟨rfl, Bool.eq_false_iff.2 hfield⟩)
  · rw [if_neg haccept]
    refine .inr (.inr ⟨fun hmatches => .inl ?_, rfl⟩)
    by_contra hends
    exact haccept (hmatch.2 ⟨hmatches, hends⟩)

theorem find_updateMethod (method m : Nat) (handler : η) (methods : List (Nat × η)) :
    (updateMethod method handler methods).find? (·.1 = m) =
      if m = method then some (method, handler) else methods.find? (·.1 = m) := by
  induction methods <;> grind [updateMethod]

theorem routeAt_addRoute (service : HttpService η) (path p : ByteString) (method m : Nat) (handler : η) :
    (service.addRoute path method handler).routeAt p m =
      if p = cStr path ∧ m = method then some handler else service.routeAt p m := by
  unfold routeAt addRoute
  dsimp only
  by_cases hany : service.pathHandlers.any fun entry => entry.path = cStr path
  · -- the paths of the table stay as they are
    rw [if_pos hany, find?_map, show _ ∘ _ = fun entry : PathHandlers η => decide (entry.path = p) by grind]
    cases hfind : service.pathHandlers.find? (·.path = p) with
    | none => grind
    | some entry =>
      have hentry : entry.path = p := by simpa using find?_some hfind
      by_cases hp : p = cStr path <;> by_cases hm : m = method <;> simp [hentry, hp, hm, find_updateMethod]
  · rw [if_neg hany, find?_append]
    cases hfind : service.pathHandlers.find? (·.path = p) <;> grind

theorem routeAt_addRoutes (service : HttpService η) (calls : List (ByteString × Nat × η)) (path : ByteString)
    (method : Nat) : (calls.foldl (fun s c => s.addRoute c.1 c.2.1 c.2.2) service).routeAt path method =
      ((calls.reverse.find? fun c => path = cStr c.1 ∧ method = c.2.1).map (·.2.2)).or (service.routeAt path method) := by
  induction calls generalizing service with
  | nil => rfl
  | cons c calls ih =>
    rw [foldl_cons, ih, routeAt_addRoute, reverse_cons, find?_append]
    by_cases hc : path = cStr c.1 ∧ method = c.2.1 <;> simp [hc]

theorem urlPath_addRoutes (service : HttpService η) (calls : List (ByteString × Nat × η)) (url : ByteString) :
    (calls.foldl (fun s c => s.addRoute c.1 c.2.1 c.2.2) service).urlPath url = service.urlPath url := by
  induction calls generalizing service with
  | nil => rfl
  | cons c calls ih => exact ih _

theorem getRouteUrl_eq {service : HttpService η} {url path : ByteString} (h : service.urlPath url = some path)
    (method : Nat) (handler : Option η) : (service.getRouteUrl url method handler).2 = service.routeAt path method ∧
      ((service.getRouteUrl url method handler).1 = 0 ↔ (service.routeAt path method).isSome) := by
  unfold getRouteUrl routeAt
  rw [h]
  dsimp only
  cases service.pathHandlers.find? (·.path = path) with
  | none => simp
  | some entry => cases hfind : entry.methods.find? (·.1 = method) <;> simp [hfind]

/-- Of the handlers that are registered for a path and a method, the last one is in the table, and `GetRoute` returns 0
    with it for every URL with the path. -/
theorem last_route_registered (service : HttpService η) (calls : List (ByteString × Nat × η)) (path : ByteString)
    (method : Nat) :
    (calls.foldl (fun s c => s.addRoute c.1 c.2.1 c.2.2) service).routeAt path method =
      ((calls.reverse.find? fun c => path = cStr c.1 ∧ method = c.2.1).map (·.2.2)).or (service.routeAt path method) ∧
    ∀ url handler, service.urlPath url = some path →
      let r := (calls.foldl (fun s c => s.addRoute c.1 c.2.1 c.2.2) service).getRouteUrl url method handler
      r.2 = ((calls.reverse.find? fun c => path = cStr c.1 ∧ method = c.2.1).map (·.2.2)).or (service.routeAt path method) ∧
        (r.1 = 0 ↔ r.2.isSome) := by
  refine ⟨routeAt_addRoutes service calls path method, fun url handler hpath => ?_⟩
  obtain ⟨hhandler, hstatus⟩ := getRouteUrl_eq ((urlPath_addRoutes service calls url).trans hpath) method handler
  rw [← routeAt_addRoutes]
  exact ⟨hhandler, by rw [hstatus, hhandler]⟩

theorem findRoute_sound {table : List (PathHandlers η)} (h : (findRoute req path table).status = 0) :
    ∃ entry ∈ table, entry.pattern.Matches path ∧
      ∃ handler, (req.method, handler) ∈ entry.methods ∧ (findRoute req path table).handler = some handler := by
  induction table with
  | nil => cases h
  | cons entry rest ih =>
    rcases @findRoute_cons η req path entry rest with ⟨hmatches, -, handler, hmem, -, hhandler⟩
      | ⟨-, -, -, -, hstatus⟩ | ⟨-, heq⟩
    · exact ⟨entry, mem_cons_self, hmatches, handler, hmem, hhandler⟩
    · rw [hstatus] at h
      cases h
    · rw [heq] at h ⊢
      obtain ⟨entry', hmem, hrest⟩ := ih h
      exact ⟨entry', mem_cons_of_mem _ hmem, hrest⟩

/-- The search succeeds if and only if a route comes before the patterns that end it. -/
theorem findRoute_found_iff {table : List (PathHandlers η)} : (findRoute req path table).status = 0 ↔
      ∃ front entry rest, table = front ++ entry :: rest ∧ entry.pattern.Matches path ∧
        ¬ entry.pattern.EndsAtStar path ∧ entry.Handles req.method ∧
        ∀ other ∈ front, other.pattern.Matches path →
          other.Handles req.method ∨ other.pattern.hasField ∨ other.pattern.EndsAtStar path := by
  induction table with
  | nil => simp [findRoute]
  | cons entry rest ih =>
    rcases @findRoute_cons η req path entry rest with
      ⟨hmatches, hends, handler, hmem, hstatus, -⟩ | ⟨hmatches, hends, hlacks, hfield, hstatus⟩ | ⟨hpass, heq⟩
    · exact ⟨fun _ => ⟨[], entry, rest, rfl, hmatches, hends, ⟨handler, hmem⟩, by simp⟩, fun _ => hstatus⟩
    · refine ⟨fun h => (by rw [hstatus] at h; cases h), ?_⟩
      rintro ⟨front, entry', rest', htable, hmatches', -, hhandles, hfront⟩
      cases front with
      | nil =>
        obtain ⟨rfl, -⟩ := cons.inj htable
        exact absurd hhandles hlacks
      | cons first front =>
        obtain ⟨rfl, -⟩ := cons.inj htable
        rcases hfront entry mem_cons_self hmatches with h | h | h
        · exact absurd h hlacks
        · rw [hfield] at h
          cases h
        · exact absurd h hends
    · rw [heq, ih]
      constructor
      · rintro ⟨front, entry', rest', rfl, hentry, hends, hhandles, hfront⟩
        refine ⟨entry :: front, entry', rest', rfl, hentry, hends, hhandles, fun other hother hmatches => ?_⟩
        rcases mem_cons.1 hother with rfl | hother
        · exact (hpass hmatches).elim (fun h => .inr (.inr h)) (fun h => .inr (.inl h.2))
        · exact hfront other hother hmatches
      · rintro ⟨front, entry', rest', htable, hentry, hends, hhandles, hfront⟩
        cases front with
        | nil =>
          obtain ⟨rfl, -⟩ := cons.inj htable
          rcases hpass hentry with h | h
          · exact absurd h hends
          · exact absurd hhandles h.1
        | cons first front =>
          obtain ⟨-, rfl⟩ := cons.inj htable
          exact ⟨front, entry', rest', rfl, hentry, hends, hhandles,
            fun other hother => hfront other (mem_cons_of_mem _ hother)⟩

/-- `GetRoute` finds a route if there is one, and else fails, if and only if a route that matches is in
    front of the patterns that end the search. -/
theorem get_route_complete_iff (service : HttpService η) (req : HttpRequest) (handler : Option η) (path : ByteString)
    (hpath : service.routePath req = some path) :
    RoutedBy service.pathHandlers path req.method (service.getRoute req handler) ↔
      RouteInFront service.pathHandlers path req.method := by
  have hroute : service.getRoute req handler = findRoute req path service.pathHandlers := by
    rw [getRoute, hpath]
  rw [hroute]
  constructor
  · intro h hexists
    exact findRoute_found_iff.1 (h.1 hexists).1
  · intro h
    refine ⟨fun hexists => ?_, fun hnone hstatus => ?_⟩
    · have hstatus := findRoute_found_iff.2 (h hexists)
      exact ⟨hstatus, findRoute_sound hstatus⟩
    · obtain ⟨entry, hmem, hmatches, h, hhandler, -⟩ := findRoute_sound hstatus
      exact hnone ⟨entry, hmem, hmatches, h, hhandler⟩

def routesService (table : List (PathHandlers Nat)) : HttpService Nat := ⟨[], table, [], [], [], []⟩

def pathRequest (method : Nat) (path : ByteString) : HttpRequest := { newRequest with method := method, path := path }

/-- The routes `GET /user/:id` and `POST /user/*`, in this order. -/
def userRoutes : List (PathHandlers Nat) :=
  [⟨ascii "/user/:id", [(httpGet, 10)]⟩, ⟨ascii "/user/*", [(3, 11)]⟩]

theorem get_route_complete_iff_user :
    (routesService userRoutes).routePath (pathRequest httpGet (ascii "/user/7?x=1")) = some (ascii "/user/7") ∧
      RouteInFront userRoutes (ascii "/user/7") httpGet ∧
      RoutedBy userRoutes (ascii "/user/7") httpGet
        ((routesService userRoutes).getRoute (pathRequest httpGet (ascii "/user/7?x=1")) none) := by
  have hpath : (routesService userRoutes).routePath (pathRequest httpGet (ascii "/user/7?x=1")) =
      some (ascii "/user/7") := by decide +kernel
  have hmatch := (matchPattern_iff (ascii "/user/:id") (ascii "/user/7") []).1 (by decide +kernel)
  have hfront : RouteInFront userRoutes (ascii "/user/7") httpGet := fun _ =>
    ⟨[], _, _, rfl, hmatch.1, hmatch.2, ⟨10, mem_cons_self⟩, by simp⟩
  exact ⟨hpath, hfront, (get_route_complete_iff (routesService userRoutes) (pathRequest httpGet (ascii "/user/7?x=1"))
    none (ascii "/user/7") hpath).2 hfront⟩

/-- The routes `GET /*` and `POST /api`, in this order. -/
def apiRoutes : List (PathHandlers Nat) := [⟨ascii "/*", [(httpGet, 10)]⟩, ⟨ascii "/api", [(3, 11)]⟩]

/-- A route for another method ends the search before the route that was asked for. -/
theorem route_hidden_by_other_method :
    (∃ entry ∈ apiRoutes, entry.pattern.Matches (ascii "/api") ∧ entry.Handles 3) ∧
      (routesService apiRoutes).routePath (pathRequest 3 (ascii "/api")) = some (ascii "/api") ∧
      ((routesService apiRoutes).getRoute (pathRequest 3 (ascii "/api")) none).status = 405 := by
  have hmatch := (matchPattern_iff (ascii "/api") (ascii "/api") []).1 (by decide +kernel)
  exact ⟨⟨⟨ascii "/api", [(3, 11)]⟩, by simp [apiRoutes], hmatch.1, 11, mem_cons_self⟩, by decide +kernel,
    by decide +kernel⟩

end HvVerified.Http.Proofs
