import HvVerified.Http.ResponseFile

/-!
# `http/server/HttpService.cpp`: routes and static files

The table of routes with the matching of patterns against the path of a request, and the way from a
request to the file that the static file service opens. The handlers of the service are of any type.
-/

namespace HvVerified.Http

open Base

/-! ## Paths -/

/-- `IS_HEX` -/
def isHex (c : UInt8) : Bool := isdigit c || (97 ≤ c && c ≤ 102) || (65 ≤ c && c ≤ 70)

/-- `hex2i` -/
def hex2i (hex : UInt8) : UInt8 := if hex ≤ 57 then hex - 48 else if hex ≤ 70 then hex - 65 + 10 else hex - 97 + 10

/-- `HUrl::unescape`, on a C string -/
def unescape : ByteString → ByteString
  | [] => []
  | b :: s =>
    let c := if b = 43 then 32 else b
    match s with
    | h :: l :: rest =>
      if b = 37 ∧ isHex h ∧ isHex l then ((hex2i h <<< 4) ||| hex2i l) :: unescape rest
      else c :: unescape (h :: l :: rest)
    | [h] => c :: unescape [h]
    | [] => [c]

/-- `HttpRequest::Path`. The decoded text may contain the byte zero. -/
def HttpRequest.getPath (req : HttpRequest) : ByteString :=
  unescape ((cStr req.path).takeWhile fun b => b ≠ 63 && b ≠ 35)

/-! ## The service -/

/-- An entry of `staticDirs`. Both texts are C strings, and the location ends with a slash. -/
structure Location where
  path : ByteString
  dir : ByteString
  path_slash : path.getLast? = some 47
  path_text : 0 ∉ path
  dir_text : 0 ∉ dir

/-- A registered path with its handlers. -/
structure PathHandlers (η : Type) where
  path : ByteString
  methods : List (Nat × η)

/-- The fields of `HttpService` for routes and static files. `pathHandlers` is in the order of iteration. -/
structure HttpService (η : Type) where
  baseUrl : ByteString
  pathHandlers : List (PathHandlers η)
  documentRoot : ByteString
  homePage : ByteString
  indexOf : ByteString
  staticDirs : List Location

variable {η : Type} (service : HttpService η)

namespace HttpService

/-! ## Routes -/

/-- The handler of a method, registered or replaced. -/
def updateMethod (method : Nat) (handler : η) : List (Nat × η) → List (Nat × η)
  | [] => [(method, handler)]
  | h :: rest => if h.1 = method then (method, handler) :: rest else h :: updateMethod method handler rest

/-- `AddRoute`. Where a new pattern comes in the order of iteration is not determined; here it is the end. -/
def addRoute (path : ByteString) (method : Nat) (handler : η) : HttpService η :=
  { service with
    pathHandlers :=
      if service.pathHandlers.any fun entry => entry.path = cStr path then
        service.pathHandlers.map fun entry =>
          if entry.path = cStr path then { entry with methods := updateMethod method handler entry.methods } else entry
      else service.pathHandlers ++ [⟨cStr path, [(method, handler)]⟩] }

/-- The handler in the table for a path and a method. -/
def routeAt (path : ByteString) (method : Nat) : Option η :=
  (service.pathHandlers.find? (·.path = path)).bind fun entry => (entry.methods.find? (·.1 = method)).map Prod.snd

/-- A store into the map of query parameters. -/
def setParam (key value : ByteString) : List (ByteString × ByteString) → List (ByteString × ByteString)
  | [] => [(key, value)]
  | entry :: rest =>
    if key = entry.1 then (key, value) :: rest
    else if key < entry.1 then (key, value) :: entry :: rest
    else entry :: setParam key value rest

/-- The name of a field, of `{name}` or of `:name`. -/
def fieldName (opening : Option UInt8) (name : ByteString) : ByteString :=
  if opening = some 123 ∧ name.getLast? = some 125 then name.dropLast else name

/-- The text after `/` starts a field. -/
def opensField (ks : ByteString) : Bool := ks.head? = some 58 || ks.head? = some 123

/-- The loop of `GetRoute` over a pattern `kp` and a path `vp`. After a `break` neither of them is at its
    end, so that the last test only counts for the end of the loop. -/
def matchPattern (kp vp : ByteString) (params : List (ByteString × ByteString)) :
    Bool × List (ByteString × ByteString) :=
  match kp, vp with
  | k :: ks, v :: vs =>
    if k = 42 then (hvStrendswith (v :: vs) ks, params)
    else if k ≠ v then (false, params)
    else if k = 47 ∧ opensField ks then
      matchPattern (ks.tail.dropWhile (· ≠ 47)) (vs.dropWhile (· ≠ 47))
        (setParam (fieldName ks.head? (ks.tail.takeWhile (· ≠ 47))) (vs.takeWhile (· ≠ 47)) params)
    else matchPattern ks vs params
  | kp, vp => (kp.isEmpty && vp.isEmpty, params)
termination_by kp.length
decreasing_by
  · have hdrop := (List.dropWhile_suffix (l := ks.tail) (fun c => decide (c ≠ 47))).length_le
    simp only [List.length_cons, List.length_tail] at hdrop ⊢
    omega
  · simp

/-- The result of `GetRoute`. -/
structure RouteResult (η : Type) where
  status : Nat
  handler : Option η
  req : HttpRequest

/-- The loop of `GetRoute`. -/
def findRoute (req : HttpRequest) (path : ByteString) : List (PathHandlers η) → RouteResult η
  | [] => ⟨404, none, req⟩
  | entry :: rest =>
    let r := matchPattern (cStr entry.path) path []
    if r.1 then
      match entry.methods.find? fun h => h.1 = req.method with
      | some h =>
        ⟨0, some h.2, { req with
          queryParams := r.2.foldl (fun params param => setParam param.1 param.2 params) req.queryParams }⟩
      | none => if r.2 = [] then ⟨405, none, req⟩ else findRoute req path rest
    else findRoute req path rest

/-- The path of a URL under `base_url`, without the query. -/
def urlPath (url : ByteString) : Option ByteString :=
  if (cStr service.baseUrl).isPrefixOf (cStr url) then
    some (((cStr url).drop (cStr service.baseUrl).length).takeWhile (· ≠ 63))
  else none

/-- `GetRoute` of a URL: its result, and what the out parameter points to. No pattern is matched. -/
def getRouteUrl (url : ByteString) (method : Nat) (handler : Option η) : Nat × Option η :=
  match service.urlPath url with
  | none => (404, handler)
  | some path =>
    match service.pathHandlers.find? (·.path = path) with
    | none => (404, none)
    | some entry =>
      match entry.methods.find? (·.1 = method) with
      | none => (405, none)
      | some h => (0, some h.2)

/-- The path below `base_url`. -/
def routePath (req : HttpRequest) : Option ByteString := service.urlPath req.path

/-- `GetRoute` of a request. `handler` is what the out parameter points to. -/
def getRoute (req : HttpRequest) (handler : Option η) : RouteResult η :=
  match service.routePath req with
  | none => ⟨404, handler, req⟩
  | some path => findRoute req path service.pathHandlers

/-! ## Static files -/

/-- A path and a directory, as `Static` stores them. -/
def location (path dir : ByteString) : Location where
  path := if (cStr path).getLast? = some 47 then cStr path else cStr path ++ [47]
  dir := if (cStr dir).getLast? = some 47 then (cStr dir).dropLast else cStr dir
  path_slash := by
    split_ifs with h
    · exact h
    · rw [List.getLast?_concat]
  path_text := by
    have hpath := zero_notMem_cStr path
    split_ifs
    · exact hpath
    · simp [hpath]
  dir_text := by
    have hdir := zero_notMem_cStr dir
    split_ifs
    · exact fun h => hdir (List.dropLast_subset _ h)
    · exact hdir

/-- The order of `staticDirs` is that of `std::greater`. -/
def insertLocation (loc : Location) : List Location → List Location
  | [] => [loc]
  | other :: rest =>
    if other.path = loc.path then loc :: rest
    else if other.path < loc.path then loc :: other :: rest
    else other :: insertLocation loc rest

/-- `Static` -/
def static_ (path dir : ByteString) : HttpService η :=
  { service with staticDirs := insertLocation (location path dir) service.staticDirs }

/-- `GetStaticFilepath` -/
def getStaticFilepath (path : ByteString) : ByteString :=
  match service.staticDirs.find? fun loc => hvStrstartswith path loc.path with
  | none => []
  | some loc =>
    let filepath := loc.dir ++ path.drop (loc.path.length - 1)
    if filepath.getLast? = some 47 then filepath ++ service.homePage else filepath

/-- How `defaultStaticHandler` goes on: with a status, or with the file that it opens, in `ResponseFile` or
    in the file cache. -/
inductive StaticAnswer where
  | status (code : Nat)
  | responseFile (filepath : ByteString)
  | openFile (filepath : ByteString) (needRead : Bool)
  deriving DecidableEq, Repr

/-- The file that an answer opens. -/
def StaticAnswer.opened : StaticAnswer → Option ByteString
  | .status _ => none
  | .responseFile filepath => some (cStr filepath)
  | .openFile filepath _ => some (cStr filepath)

/-- The check of the request path. -/
def isUnsafe (path : ByteString) : Bool :=
  path.head? ≠ some 47 || (find (ascii "/..") path).isSome || (find (ascii "\\..") path).isSome

/-- The file of a request path. -/
def staticFile (path : ByteString) : ByteString :=
  if path.getLast? = some 47 ∧ service.indexOf ≠ [] ∧ hvStrstartswith (cStr path) (cStr service.indexOf) then
    service.documentRoot ++ path
  else service.getStaticFilepath (cStr path)

/-- `defaultStaticHandler`, up to the file that it opens -/
def defaultStaticHandler (req : HttpRequest) : StaticAnswer :=
  let path := req.getPath
  if isUnsafe (cStr path) then .status 400
  else if service.staticFile path = [] then .status 404
  else if req.getRange.isSome then .responseFile (service.staticFile path)
  else .openFile (service.staticFile path) (req.method ≠ httpHead)

end HttpService

/-- The components of a file name, between slashes and backslashes. -/
def components (filepath : ByteString) : List ByteString := filepath.splitOnP fun b => b = 47 || b = 92

/-- The file is in a directory of the service: its name is that of the directory, and a text that starts with
    a slash and has no component `..`. -/
def HttpService.Confined {η : Type} (service : HttpService η) (file : ByteString) : Prop :=
  ∃ dir suffix, (dir = service.documentRoot ∨ ∃ loc ∈ service.staticDirs, dir = loc.dir) ∧ file = dir ++ suffix ∧
    suffix.head? = some 47 ∧ ascii ".." ∉ components suffix

/-! ## What patterns stand for -/

/-- A pattern of a route: literal characters, fields that stand for one segment of the path, and a star
    with the literal text after it. -/
inductive RoutePattern where
  | done
  | star (tail : ByteString)
  | literal (b : UInt8) (rest : RoutePattern)
  | field (rest : RoutePattern)
  deriving DecidableEq, Repr

namespace RoutePattern

/-- The pattern that a text denotes. The name of a field goes up to the next slash. -/
def ofText (text : ByteString) : RoutePattern :=
  match text with
  | [] => .done
  | b :: s =>
    if b = 42 then .star s
    else if b = 47 ∧ HttpService.opensField s then .field (ofText (s.tail.dropWhile (· ≠ 47)))
    else .literal b (ofText s)
termination_by text.length
decreasing_by
  · have hdrop := (List.dropWhile_suffix (l := s.tail) (fun c => decide (c ≠ 47))).length_le
    simp only [List.length_cons, List.length_tail] at hdrop ⊢
    omega
  · simp

/-- Whether a path matches a pattern. -/
def Matches : RoutePattern → ByteString → Prop
  | .done, path => path = []
  | .star tail, path => ∃ text, path = text ++ tail
  | .literal b rest, path => ∃ path', path = b :: path' ∧ rest.Matches path'
  | .field rest, path => ∃ segment path', path = 47 :: (segment ++ path') ∧ 47 ∉ segment ∧
      (path' = [] ∨ path'.head? = some 47) ∧ rest.Matches path'

/-- The path ends where only a star is left of the pattern. -/
def EndsAtStar : RoutePattern → ByteString → Prop
  | .done, _ => False
  | .star tail, path => tail = [] ∧ path = []
  | .literal b rest, path => ∃ path', path = b :: path' ∧ rest.EndsAtStar path'
  | .field rest, path => ∃ segment path', path = 47 :: (segment ++ path') ∧ 47 ∉ segment ∧
      (path' = [] ∨ path'.head? = some 47) ∧ rest.EndsAtStar path'

/-- Whether a pattern has a field. -/
def hasField : RoutePattern → Bool
  | .done => false
  | .star _ => false
  | .literal _ rest => rest.hasField
  | .field _ => true

end RoutePattern

namespace PathHandlers

variable {η : Type}

/-- The pattern of a registered path. -/
def pattern (entry : PathHandlers η) : RoutePattern := .ofText (cStr entry.path)

/-- Whether the method is registered. -/
def Handles (entry : PathHandlers η) (method : Nat) : Prop := ∃ handler, (method, handler) ∈ entry.methods

end PathHandlers

namespace HttpService

variable {η : Type}

/-- The result is a handler of a route that matches, if there is one, and else an error. -/
def RoutedBy (table : List (PathHandlers η)) (path : ByteString) (method : Nat) (r : RouteResult η) : Prop :=
  ((∃ entry ∈ table, entry.pattern.Matches path ∧ entry.Handles method) →
    r.status = 0 ∧ ∃ entry ∈ table, entry.pattern.Matches path ∧
      ∃ handler, (method, handler) ∈ entry.methods ∧ r.handler = some handler) ∧
  ((¬ ∃ entry ∈ table, entry.pattern.Matches path ∧ entry.Handles method) → r.status ≠ 0)

/-- If a route matches, then there is one, whose pattern is not at its star where the path ends, that comes
    before every matching pattern without fields (and not at its star) for other methods. -/
def RouteInFront (table : List (PathHandlers η)) (path : ByteString) (method : Nat) : Prop :=
  (∃ entry ∈ table, entry.pattern.Matches path ∧ entry.Handles method) →
    ∃ front entry rest, table = front ++ entry :: rest ∧ entry.pattern.Matches path ∧
      ¬ entry.pattern.EndsAtStar path ∧ entry.Handles method ∧
      ∀ other ∈ front, other.pattern.Matches path →
        other.Handles method ∨ other.pattern.hasField ∨ other.pattern.EndsAtStar path

end HttpService

end HvVerified.Http
