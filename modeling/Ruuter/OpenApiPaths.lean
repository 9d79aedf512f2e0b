import Ruuter.GuardCoverage
import Ruuter.LongestPrefix
import Ruuter.OpenApi

/-! The document of the OpenAPI generator (`build_spec_from_http` of `src/openapi.rs`): which path
and which `operationId` a route gets, and when both tell the routes of a loaded tree apart. -/
namespace Ruuter.OpenApi
open Text

/-- A DSL of the HTTP tree with the names that lead to it. -/
structure Route where
  project : String
  method : String
  key : String
  dsl : Dsl

def openapiHttpMethods : List String := ["GET","POST","PUT","PATCH","DELETE","OPTIONS","HEAD","TRACE"]

def isHttpMethod (method : String) : Bool := openapiHttpMethods.any (eqIgnoreAsciiCase · method)

section Responses

def statusReason (code : Nat) : String :=
  match code with
  | 200 => "OK"
  | 201 => "Created"
  | 202 => "Accepted"
  | 204 => "No Content"
  | 301 => "Moved Permanently"
  | 302 => "Found"
  | 304 => "Not Modified"
  | 400 => "Bad Request"
  | 401 => "Unauthorized"
  | 403 => "Forbidden"
  | 404 => "Not Found"
  | 405 => "Method Not Allowed"
  | 409 => "Conflict"
  | 412 => "Precondition Failed"
  | 428 => "Precondition Required"
  | 429 => "Too Many Requests"
  | 500 => "Internal Server Error"
  | 502 => "Bad Gateway"
  | 503 => "Service Unavailable"
  | 504 => "Gateway Timeout"
  | _ => "Response"

/-- The status codes that the `return` steps name as numbers, each once. -/
def collectReturnStatuses (dsl : Dsl) : List Nat :=
  dsl.steps.entries.foldl (fun out entry =>
    match entry.2 with
    | .returnStep { status := some (.number n), .. } =>
      match n.asU64 with
      | some code =>
        if 100 ≤ code.toNat ∧ code.toNat ≤ 599 ∧ code.toNat ∉ out then out ++ [code.toNat] else out
      | none => out
    | _ => out) []

/-- The codes of an operation: a success, a client error and 500 are always among them. -/
def effectiveStatuses (statuses : List Nat) : List Nat :=
  let codes := if statuses.isEmpty then [200] else statuses
  let codes := if codes.any fun c => 200 ≤ c ∧ c < 300 then codes else codes ++ [200]
  let codes := if codes.any fun c => 400 ≤ c ∧ c < 500 then codes else codes ++ [400]
  if codes.contains 500 then codes else codes ++ [500]

def schemaRef (target : String) : Json := .ofEntries [("$ref",.string target)]

def buildResponses (statuses : List Nat) (decl : Option DeclarationStep) : Json :=
  let typed := (decl.bind (·.returns)).bind fun fields =>
    if fields.isEmpty then none else some (buildObjectSchema fields)
  .ofEntries ((effectiveStatuses statuses).map fun code =>
    let schema :=
      if 400 ≤ code then schemaRef "#/components/schemas/Error"
      else typed.getD (.ofEntries [("type",.string "object"),("additionalProperties",.bool true)])
    (code.repr,.ofEntries [("description",.string (statusReason code)),
      ("headers",.ofEntries [("traceparent",schemaRef "#/components/headers/traceparent"),
        ("X-Trace-Id",schemaRef "#/components/headers/X-Trace-Id")]),
      ("content",.ofEntries [("application/json",.ofEntries [("schema",schema)])])]))

/-- The responses of a pass-through route. -/
def proxyResponses (upstream : String) : Json :=
  .ofEntries [("default",.ofEntries [("description",.string ("Proxied upstream response from " ++ upstream)),
    ("content",.ofEntries [("application/octet-stream",.ofEntries [("schema",
      .ofEntries [("type",.string "string"),("format",.string "binary")])])])])]

end Responses

section Names

/-- What is left of a key without its method. Every leading `METHOD/` goes. -/
def pathSuffix (key method : String) : String := trimStartMatches key (method ++ "/")

def isAsciiAlphanumeric (c : Char) : Bool := c.isAlphanum

def slug (suffix : String) : String :=
  String.ofList (suffix.toList.map fun c => if isAsciiAlphanumeric c then c else '_')

/-- `to_lowercase`: the methods of operations are ASCII. -/
def operationId (project method key : String) : String :=
  toAsciiLowercase method ++ "_" ++ project ++ "_" ++ slug (pathSuffix key method)

def summaryFromKey (key : String) : String := (split key '/').getLastD key

def httpPath (route : Route) : String := "/" ++ route.project ++ "/" ++ pathSuffix route.key route.method

def httpSlot (route : Route) : String := toAsciiLowercase route.method

end Names

/-- The parameters and the request body, as members of the operation. -/
def inputMembers (method : String) (decl : Option DeclarationStep) : List (String × Json) :=
  match buildOperation method decl with
  | .object members => members
  | _ => []

/-- `build_operation`: the names of the route, the inputs and the responses. -/
def operation (route : Route) : Json :=
  let decl := route.dsl.declaration
  let description := (decl.bind (·.description)).getD ("Auto-generated from DSL `" ++ route.key ++ "` in project `" ++
    route.project ++ "`. Add a `declaration.description` to override.")
  let responses := match decl.bind (·.proxy) with
    | some proxy => proxyResponses proxy.upstream
    | none => buildResponses (collectReturnStatuses route.dsl) decl
  .ofEntries ([("operationId",.string (operationId route.project route.method route.key)),
    ("summary",.string (summaryFromKey route.key)),("description",.string description),
    ("tags",.array [.string route.project])] ++
    (if decl.bind (·.internal) = some true then [("x-internal",.bool true)] else []) ++
    inputMembers route.method decl ++ [("responses",responses)])

section Document

def sortedNames (names : List String) : List String := names.insertionSort (· ≤ ·)

/-- The routes of one method bucket, by key. -/
def bucketRoutes (project method : String) (dsls : StringMap Dsl) : List Route :=
  (sortedNames dsls.keys).filterMap fun key => (dsls.lookup key).map fun dsl => ⟨project,method,key,dsl⟩

/-- The routes that get an operation, in the order of the document. -/
def specRoutes (http : HttpDsls) : List Route :=
  (sortedNames http.keys).flatMap fun project =>
    let byMethod := (http.lookup project).getD ∅
    ((sortedNames byMethod.keys).filter isHttpMethod).flatMap fun method =>
      bucketRoutes project method ((byMethod.lookup method).getD ∅)

/-- An operation takes its place among the operations of its path. -/
def addOperation (paths : List (String × Json)) (route : Route) : List (String × Json) :=
  match paths.lookup (httpPath route) with
  | none => Json.insertMember (httpPath route) (.ofEntries [(httpSlot route,operation route)]) paths
  | some (.object slots) =>
    Json.insertMember (httpPath route) (.object (Json.insertMember (httpSlot route) (operation route) slots)) paths
  | some _ => paths

def buildPaths (http : HttpDsls) : Json := .object ((specRoutes http).foldl addOperation [])

def buildSpecFromHttp (http : HttpDsls) (serviceVersion : String) : Json :=
  .ofEntries [("openapi",.string "3.1.0"),
    ("info",.ofEntries [("title",.string "Ruuter-on-Rust DSL API"),("version",.string serviceVersion),
      ("description",.string ("Auto-generated from the DSL tree on disk. Endpoints reflect files present in " ++
        "DSL/<project>/<METHOD>/*.yml at boot; the spec is regenerated on restart.")),
      ("license",.ofEntries [("name",.string "MIT"),("identifier",.string "MIT")])]),
    ("servers",.array [.ofEntries [("url",.string "/"),("description",.string "Same-origin (this Ruuter instance)")]]),
    ("security",.array []),
    ("paths",buildPaths http),
    ("components",.ofEntries [
      ("schemas",.ofEntries [("Error",.ofEntries [("type",.string "object"),
        ("properties",.ofEntries [("error",.ofEntries [("type",.string "string")])]),
        ("required",.array [.string "error"])])]),
      ("headers",.ofEntries [
        ("X-Trace-Id",.ofEntries [
          ("description",.string ("32-hex trace id extracted from the response's `traceparent`. " ++
            "Ops can grep for this across services.")),
          ("schema",.ofEntries [("type",.string "string")])]),
        ("traceparent",.ofEntries [
          ("description",.string ("W3C traceparent (`00-<trace_id>-<span_id>-<flags>`) either adopted from the " ++
            "request or generated fresh.")),
          ("schema",.ofEntries [("type",.string "string")])])])])]

/-- The operation of a path and a method. -/
def operationAt (spec : Json) (path slot : String) : Option Json :=
  ((spec.member? "paths").bind (·.member? path)).bind (·.member? slot)

end Document

/-- A DSL of the tree under its names. -/
def HasRoute (http : HttpDsls) (route : Route) : Prop :=
  (bucket http route.project route.method).lookup route.key = some route.dsl

section Places
open Assoc

/-- Where the operation of a route stands. -/
def place (route : Route) : (String × String) × Json := ((httpPath route,httpSlot route),operation route)

def slotsAt (paths : List (String × Json)) (path slot : String) : Option Json :=
  (paths.lookup path).bind (·.member? slot)

/-- Each path has an object. -/
def AllObjects (paths : List (String × Json)) : Prop :=
  ∀ path held, paths.lookup path = some held → ∃ slots, held = .object slots

theorem operationAt_spec (http : HttpDsls) (serviceVersion path slot : String) :
    operationAt (buildSpecFromHttp http serviceVersion) path slot =
      slotsAt ((specRoutes http).foldl addOperation []) path slot := by
  have paths : (buildSpecFromHttp http serviceVersion).member? "paths" = some (buildPaths http) := by
    unfold buildSpecFromHttp
    rw [Json.member?_ofEntries]
    rfl
  unfold operationAt
  rw [paths]
  rfl

theorem addOperation_objects (objects : AllObjects paths) (route : Route) : AllObjects (addOperation paths route) := by
  intro path held found
  unfold addOperation at found
  split at found
  · rw [Json.lookup_insertMember] at found
    split at found
    · exact ⟨_,(Option.some.inj found).symm⟩
    · exact objects path held found
  · rw [Json.lookup_insertMember] at found
    split at found
    · exact ⟨_,(Option.some.inj found).symm⟩
    · exact objects path held found
  · exact objects path held found

/-- An operation is put at its own place. The others stay. -/
theorem slotsAt_addOperation (objects : AllObjects paths) (route : Route) (path slot : String) :
    slotsAt (addOperation paths route) path slot =
      if (path,slot) = (httpPath route,httpSlot route) then some (operation route) else slotsAt paths path slot := by
  have inserted (slots : List (String × Json))
      (before : (paths.lookup (httpPath route)).bind (·.member? slot) = slots.lookup slot) :
      slotsAt (Json.insertMember (httpPath route) (.object (Json.insertMember (httpSlot route) (operation route) slots)) paths)
        path slot =
      if (path,slot) = (httpPath route,httpSlot route) then some (operation route) else slotsAt paths path slot := by
    unfold slotsAt
    rw [Json.lookup_insertMember]
    by_cases here : path = httpPath route
    · subst here
      rw [if_pos rfl,before,Option.bind_some]
      refine (Json.lookup_insertMember ..).trans ?_
      simp only [Prod.mk.injEq,true_and]
    · rw [if_neg here,if_neg (fun same => here (congrArg Prod.fst same))]
  unfold addOperation
  cases found : paths.lookup (httpPath route) with
  | none => exact inserted [] (by rw [found]; rfl)
  | some held =>
    obtain ⟨slots,rfl⟩ := objects _ _ found
    exact inserted slots (by rw [found]; rfl)

/-- Every place has the operation of its last route. -/
theorem slotsAt_foldl (routes : List Route) (objects : AllObjects paths) (path slot : String) :
    slotsAt (routes.foldl addOperation paths) path slot =
      (latest (routes.map place) (path,slot)).or (slotsAt paths path slot) := by
  induction routes generalizing paths with
  | nil => rfl
  | cons route rest ih =>
    rw [List.foldl_cons,ih (addOperation_objects objects route),List.map_cons,← List.singleton_append,latest_append,
      slotsAt_addOperation objects]
    cases latest (rest.map place) (path,slot) with
    | some later => rfl
    | none =>
      by_cases same : (path,slot) = (httpPath route,httpSlot route)
      · rw [if_pos same,same]
        simp [latest,place]
      · rw [if_neg same,latest_eq_none]
        · rfl
        · intro item member
          rw [List.mem_singleton.mp member]
          exact Ne.symm same

theorem operationAt_eq (http : HttpDsls) (serviceVersion path slot : String) :
    operationAt (buildSpecFromHttp http serviceVersion) path slot =
      latest ((specRoutes http).map place) (path,slot) := by
  have empty : AllObjects [] := by
    rintro path held ⟨⟩
  rw [operationAt_spec,slotsAt_foldl _ empty]
  exact Option.or_none

theorem mem_sortedNames : name ∈ sortedNames names ↔ name ∈ names := List.mem_insertionSort _

theorem mem_bucketRoutes : route ∈ bucketRoutes project method dsls ↔
    route.project = project ∧ route.method = method ∧ dsls.lookup route.key = some route.dsl := by
  unfold bucketRoutes
  simp only [List.mem_filterMap,mem_sortedNames,Option.map_eq_some_iff]
  constructor
  · rintro ⟨key,_,dsl,held,rfl⟩
    exact ⟨rfl,rfl,held⟩
  · rintro ⟨rfl,rfl,held⟩
    have inside : route.key ∈ dsls.keys := AList.mem_keys.mpr (AList.lookup_isSome.mp (by rw [held]; rfl))
    exact ⟨route.key,inside,route.dsl,held,rfl⟩

/-- The routes with an operation are those of the methods that a path item has. -/
theorem mem_specRoutes {http : HttpDsls} :
    route ∈ specRoutes http ↔ HasRoute http route ∧ isHttpMethod route.method = true := by
  have opened : bucket http route.project route.method =
      (((http.lookup route.project).getD ∅).lookup route.method).getD ∅ := by
    unfold bucket
    cases http.lookup route.project <;> rfl
  unfold specRoutes HasRoute
  rw [opened]
  simp only [List.mem_flatMap,List.mem_filter,mem_sortedNames,mem_bucketRoutes]
  constructor
  · rintro ⟨project,_,method,⟨_,isHttp⟩,rfl,rfl,held⟩
    exact ⟨held,isHttp⟩
  · rintro ⟨held,isHttp⟩
    have inBucket : route.method ∈ (http.lookup route.project).getD ∅ := by
      by_contra absent
      rw [AList.lookup_eq_none.mpr absent] at held
      cases held
    have inTree : route.project ∈ http := by
      by_contra absent
      rw [AList.lookup_eq_none.mpr absent] at inBucket
      exact AList.notMem_empty _ inBucket
    exact ⟨route.project,AList.mem_keys.mpr inTree,route.method,⟨AList.mem_keys.mpr inBucket,isHttp⟩,rfl,rfl,held⟩

end Places

section Methods

theorem eqIgnoreAsciiCase_iff : eqIgnoreAsciiCase one two = true ↔ toAsciiLowercase one = toAsciiLowercase two := by
  unfold eqIgnoreAsciiCase toAsciiLowercase
  rw [beq_iff_eq,String.ofList_inj]

theorem isHttpMethod_iff : isHttpMethod method = true ↔
    toAsciiLowercase method ∈ openapiHttpMethods.map toAsciiLowercase := by
  unfold isHttpMethod
  simp only [List.any_eq_true,List.mem_map,eqIgnoreAsciiCase_iff]

/-- The methods of operations are words of letters. -/
theorem not_mem_method (isHttp : isHttpMethod method = true) :
    '/' ∉ method.toList ∧ '_' ∉ (toAsciiLowercase method).toList := by
  have letters : ∀ name ∈ openapiHttpMethods.map toAsciiLowercase, '/' ∉ name.toList ∧ '_' ∉ name.toList := by
    decide +kernel
  obtain ⟨slash,underscore⟩ := letters _ (isHttpMethod_iff.mp isHttp)
  refine ⟨?_,underscore⟩
  intro inside
  apply slash
  unfold toAsciiLowercase
  rw [String.toList_ofList]
  exact List.mem_map.mpr ⟨'/',inside,by decide⟩

end Methods

section Slugs

/-- Two texts that a slug does not tell apart: they differ in punctuation only. -/
def Alike (one two : String) : Prop :=
  List.Forall₂ (fun c d => c = d ∨ isAsciiAlphanumeric c = false ∧ isAsciiAlphanumeric d = false) one.toList two.toList

/-- A text of letters, digits and underscores. -/
def IsWord (s : String) : Prop := ∀ c ∈ s.toList, isAsciiAlphanumeric c = true ∨ c = '_'

/-- The name of the other project goes on where the rest of this route's key starts. -/
def Absorbs (project rest other otherRest : String) : Prop :=
  ∃ gap, other = project ++ "_" ++ gap ∧ IsWord gap ∧ Alike rest (gap ++ "_" ++ otherRest)

/-- Two projects with the rests of two keys which differ at most in the punctuation of the rests. -/
def LookAlike (project rest other otherRest : String) : Prop :=
  (project = other ∧ Alike rest otherRest) ∨ Absorbs project rest other otherRest ∨
    Absorbs other otherRest project rest

def slugChar (c : Char) : Char := if isAsciiAlphanumeric c then c else '_'

theorem toList_slug (s : String) : (slug s).toList = s.toList.map slugChar := String.toList_ofList

theorem slugChar_eq_iff : slugChar c = slugChar d ↔
    c = d ∨ isAsciiAlphanumeric c = false ∧ isAsciiAlphanumeric d = false := by
  have underscore : isAsciiAlphanumeric '_' = false := by decide
  unfold slugChar
  cases one : isAsciiAlphanumeric c with
  | true =>
    cases two : isAsciiAlphanumeric d with
    | true => simp
    | false =>
      simp only [if_true,Bool.false_eq_true,if_false,Bool.true_eq_false,false_and,or_false]
      refine iff_of_false ?_ ?_
      · rintro rfl
        cases one.symm.trans underscore
      · rintro rfl
        cases one.symm.trans two
  | false =>
    cases two : isAsciiAlphanumeric d with
    | true =>
      simp only [if_true,Bool.false_eq_true,if_false,Bool.true_eq_false,and_false,or_false]
      refine iff_of_false ?_ ?_
      · rintro rfl
        cases two.symm.trans underscore
      · rintro rfl
        cases one.symm.trans two
    | false => simp

theorem slug_eq_iff : slug one = slug two ↔ Alike one two := by
  unfold Alike
  simp only [← slugChar_eq_iff]
  rw [← String.toList_inj,toList_slug,toList_slug,← List.forall₂_eq_eq_eq,List.forall₂_map_left_iff,
    List.forall₂_map_right_iff]

theorem slugChar_word (c : Char) : isAsciiAlphanumeric (slugChar c) = true ∨ slugChar c = '_' := by
  unfold slugChar
  split
  · left
    assumption
  · exact .inr rfl

theorem slug_eq_self (word : IsWord s) : slug s = s := by
  apply String.toList_inj.mp
  rw [toList_slug]
  have kept : ∀ c ∈ s.toList, slugChar c = id c := by
    intro c inside
    rcases word c inside with letter | rfl
    · exact if_pos letter
    · decide
  rw [List.map_congr_left kept,List.map_id]

theorem slug_gap_iff :
    slug rest = gap ++ "_" ++ slug otherRest ↔ IsWord gap ∧ Alike rest (gap ++ "_" ++ otherRest) := by
  have joined (word : IsWord gap) : slug (gap ++ "_" ++ otherRest) = gap ++ "_" ++ slug otherRest := by
    have own := congrArg String.toList (slug_eq_self word)
    rw [toList_slug] at own
    apply String.toList_inj.mp
    simp only [toList_slug,String.toList_append,List.map_append,own]
    rfl
  constructor
  · intro same
    have word : IsWord gap := by
      intro c inside
      have here : c ∈ (slug rest).toList := by
        rw [same]
        simp [inside]
      rw [toList_slug] at here
      obtain ⟨d,_,rfl⟩ := List.mem_map.mp here
      exact slugChar_word d
    exact ⟨word,slug_eq_iff.mp (same.trans (joined word).symm)⟩
  · rintro ⟨word,alike⟩
    exact (slug_eq_iff.mpr alike).trans (joined word)

theorem project_slug_iff : project ++ "_" ++ slug rest = other ++ "_" ++ slug otherRest ↔
    LookAlike project rest other otherRest := by
  have cut := @append_separator_eq_iff project (slug rest) other (slug otherRest) '_'
  refine cut.trans ?_
  unfold LookAlike Absorbs
  rw [slug_eq_iff]
  refine or_congr_right (or_congr ?_ ?_)
  · exact exists_congr fun gap => and_congr_right fun _ => slug_gap_iff
  · exact exists_congr fun gap => and_congr_right fun _ => slug_gap_iff

/-- Two operations have one id when their methods are the same and the rest reads alike. -/
theorem operationId_eq_iff (one : isHttpMethod method = true) (two : isHttpMethod otherMethod = true) :
    operationId project method key = operationId other otherMethod otherKey ↔
      eqIgnoreAsciiCase method otherMethod = true ∧
        LookAlike project (pathSuffix key method) other (pathSuffix otherKey otherMethod) := by
  have grouped (project method key : String) : operationId project method key =
      toAsciiLowercase method ++ String.singleton '_' ++ (project ++ "_" ++ slug (pathSuffix key method)) := by
    rw [show String.singleton '_' = "_" from rfl]
    simp only [operationId,String.append_assoc]
  rw [grouped,grouped,eqIgnoreAsciiCase_iff,← project_slug_iff]
  exact append_separator_inj (not_mem_method one).2 (not_mem_method two).2

theorem Alike.refl (s : String) : Alike s s := slug_eq_iff.mp rfl

end Slugs

section Keys

/-- A key whose path is the rest of it: the segments are not empty and the first directory does not
have the name of the method. -/
structure Plain (method key : String) (segments : List String) : Prop where
  joined : key = routeKey method segments
  nonempty : segments ≠ []
  clean : ∀ segment ∈ segments, segment ≠ "" ∧ '/' ∉ segment.toList
  once : ∀ more, segments = method :: more → more = []

theorem startsWith_joined (cleanMethod : '/' ∉ method.toList)
    (clean : ∀ segment ∈ segments, segment ≠ "" ∧ '/' ∉ segment.toList)
    (starts : startsWith ("/".intercalate segments) (method ++ "/") = true) :
    ∃ more, more ≠ [] ∧ segments = method :: more := by
  obtain ⟨rest,same⟩ := startsWith_iff.mp starts
  refine ⟨split rest '/',split_ne_nil rest '/',?_⟩
  have whole : split ("/".intercalate segments) '/' = split method '/' ++ split rest '/' := by
    rw [same]
    exact split_append method rest '/'
  rw [split_of_not_mem cleanMethod] at whole
  cases segments with
  | nil =>
    have size := congrArg String.length same
    have slash : "/".length = 1 := rfl
    rw [String.length_append,String.length_append,slash,String.intercalate_nil,String.length_empty] at size
    omega
  | cons first others =>
    have pieces : split ("/".intercalate (first :: others)) '/' = first :: others :=
      split_intercalate (fun piece member => (clean piece member).2) (List.cons_ne_nil first others)
    exact pieces.symm.trans whole

theorem pathSuffix_routeKey (method : String) (segments : List String) :
    pathSuffix (routeKey method segments) method = trimStartMatches ("/".intercalate segments) (method ++ "/") :=
  trimStartMatches_append (method ++ "/") _ (by simp)

theorem Plain.suffix (plain : Plain method key segments) (cleanMethod : '/' ∉ method.toList) :
    pathSuffix key method = "/".intercalate segments := by
  rw [plain.joined,pathSuffix_routeKey]
  apply trimStartMatches_of_not
  by_contra starts
  obtain ⟨more,filled,same⟩ := startsWith_joined cleanMethod plain.clean (Bool.not_eq_false _ ▸ starts)
  exact filled (plain.once more same)

/-- Trimming leaves no more segments. -/
theorem length_trimmed (cleanMethod : '/' ∉ method.toList)
    (clean : ∀ segment ∈ segments, segment ≠ "" ∧ '/' ∉ segment.toList) :
    (pathSegments (trimStartMatches ("/".intercalate segments) (method ++ "/"))).length ≤ segments.length := by
  induction segments with
  | nil => exact Nat.le_of_eq rfl
  | cons first rest ih =>
    by_cases starts : startsWith ("/".intercalate (first :: rest)) (method ++ "/") = true
    · obtain ⟨more,filled,same⟩ := startsWith_joined cleanMethod clean starts
      obtain ⟨rfl,rfl⟩ := List.cons.inj same
      have shorter := ih fun segment member => clean segment (List.mem_cons_of_mem _ member)
      have trimmed := pathSuffix_routeKey first rest
      rw [String.intercalate_cons_of_ne_nil filled]
      refine Nat.le_trans (Nat.le_of_eq ?_) (Nat.le_succ_of_le shorter)
      exact congrArg (fun path => (pathSegments path).length) trimmed
    · rw [trimStartMatches_of_not (Bool.eq_false_iff.mpr starts),pathSegments_intercalate clean]

/-- A key is found under its path when it names that path. -/
theorem resolves_iff {http : HttpDsls} (cleanMethod : '/' ∉ method.toList) :
    resolveDslWithPathParams http project method (pathSuffix key method) = some (dsl,key,[]) ↔
      (bucket http project method).lookup key = some dsl ∧ ∃ segments, Plain method key segments := by
  rw [resolve_iff]
  constructor
  · rintro ⟨i,longest,same,whole⟩
    have all : i = (pathSegments (pathSuffix key method)).length := by
      have beyond := List.drop_eq_nil_iff.mp whole.symm
      have inside := longest.inside
      omega
    have held := longest.held
    have positive := longest.positive
    rw [all,List.take_length] at same held
    rw [all] at positive
    refine ⟨same ▸ held,_,same,List.ne_nil_of_length_pos positive,fun _ member => mem_pathSegments member,?_⟩
    intro more again
    by_contra filled
    have clean : ∀ segment ∈ more, segment ≠ "" ∧ '/' ∉ segment.toList := by
      intro segment member
      have inside : segment ∈ pathSegments (pathSuffix key method) := by
        rw [again]
        exact List.mem_cons_of_mem _ member
      exact mem_pathSegments inside
    have repeated : pathSuffix key method = trimStartMatches ("/".intercalate more) (method ++ "/") := by
      rw [again] at same
      conv_lhs => rw [same]
      rw [pathSuffix_routeKey,String.intercalate_cons_of_ne_nil filled]
      exact trimStartMatches_append (method ++ "/") _ (by simp)
    have bound := length_trimmed cleanMethod clean
    rw [← repeated,again,List.length_cons] at bound
    omega
  · rintro ⟨held,segments,plain⟩
    have path : pathSegments (pathSuffix key method) = segments := by
      rw [plain.suffix cleanMethod,pathSegments_intercalate plain.clean]
    rw [path]
    rcases segments.eq_nil_or_concat' with none | ⟨before,last,rfl⟩
    · exact absurd none plain.nonempty
    · rw [plain.joined] at held
      exact ⟨_,longest_whole held,by rw [List.take_length,plain.joined],by rw [List.drop_length]⟩

end Keys

section Injectivity
open Assoc

/-- Every route has an operation of its own, at the path that resolves to it, and no two operations
have one id. -/
structure InjectiveOnRoutes (http : HttpDsls) (serviceVersion : String) : Prop where
  own : ∀ route, HasRoute http route →
    operationAt (buildSpecFromHttp http serviceVersion) (httpPath route) (httpSlot route) = some (operation route)
  resolves : ∀ route, HasRoute http route → ∃ path, httpPath route = "/" ++ route.project ++ "/" ++ path ∧
    resolveDslWithPathParams http route.project route.method path = some (route.dsl,route.key,[])
  slots : ∀ one two, HasRoute http one → HasRoute http two → httpPath one = httpPath two →
    httpSlot one = httpSlot two → one = two
  ids : ∀ path slot first otherPath otherSlot second,
    operationAt (buildSpecFromHttp http serviceVersion) path slot = some first →
    operationAt (buildSpecFromHttp http serviceVersion) otherPath otherSlot = some second →
    first.member? "operationId" = second.member? "operationId" → path = otherPath ∧ slot = otherSlot

/-- Every route has a method of path items and a key that names its path, and no two routes of one
method look alike. -/
structure Distinguishable (http : HttpDsls) : Prop where
  methods : ∀ route, HasRoute http route → isHttpMethod route.method = true
  plain : ∀ route, HasRoute http route → ∃ segments, Plain route.method route.key segments
  apart : ∀ one two rest otherRest, HasRoute http one → HasRoute http two →
    one.key = one.method ++ "/" ++ rest → two.key = two.method ++ "/" ++ otherRest →
    eqIgnoreAsciiCase one.method two.method = true → LookAlike one.project rest two.project otherRest → one = two

theorem inputMembers_id (method : String) (decl : Option DeclarationStep) :
    (inputMembers method decl).lookup "operationId" = none := by
  have absent : (buildOperation method decl).member? "operationId" = none := by
    unfold buildOperation
    rw [Json.member?_ofEntries,List.reverse_append,List.lookup_append]
    cases buildParameters decl <;>
      cases if (decl.bind (·.proxy)).isSome then some opaqueBody else buildRequestBody method decl <;> rfl
  exact absent

/-- The first entry of an object, when no other has its key. -/
theorem member?_first {rest : List (String × Json)} (absent : rest.lookup key = none) :
    (Json.ofEntries ((key,value) :: rest)).member? key = some value := by
  have later : rest.reverse.lookup key = none := by
    rw [List.lookup_eq_none_iff] at absent ⊢
    intro entry member
    exact absent entry (List.mem_reverse.mp member)
  rw [Json.member?_ofEntries,List.reverse_cons,List.lookup_append,later,Option.none_or]
  exact List.lookup_cons_self

theorem operation_id (route : Route) :
    (operation route).member? "operationId" = some (.string (operationId route.project route.method route.key)) := by
  unfold operation
  simp only [List.cons_append]
  apply member?_first
  simp only [← List.cons_append,List.lookup_append,inputMembers_id]
  by_cases hidden : route.dsl.declaration.bind (·.internal) = some true
  · rw [if_pos hidden]
    rfl
  · rw [if_neg hidden]
    rfl

variable {http : HttpDsls}

/-- The operations of a document are those of its routes. -/
theorem operationAt_inv (found : operationAt (buildSpecFromHttp http serviceVersion) path slot = some held) :
    ∃ route, HasRoute http route ∧ isHttpMethod route.method = true ∧ path = httpPath route ∧ slot = httpSlot route ∧
      held = operation route := by
  rw [operationAt_eq] at found
  obtain ⟨route,member,same⟩ := List.mem_map.mp (mem_of_latest found)
  obtain ⟨held,isHttp⟩ := mem_specRoutes.mp member
  simp only [place,Prod.mk.injEq] at same
  exact ⟨route,held,isHttp,same.1.1.symm,same.1.2.symm,same.2.symm⟩

theorem operationAt_own (inside : HasRoute http route) (isHttp : isHttpMethod route.method = true)
    (only : ∀ other, HasRoute http other → httpPath other = httpPath route →
      httpSlot other = httpSlot route → other = route) :
    operationAt (buildSpecFromHttp http serviceVersion) (httpPath route) (httpSlot route) = some (operation route) := by
  have member : place route ∈ (specRoutes http).map place := List.mem_map_of_mem (mem_specRoutes.mpr ⟨inside,isHttp⟩)
  cases found : operationAt (buildSpecFromHttp http serviceVersion) (httpPath route) (httpSlot route) with
  | none =>
    rw [operationAt_eq] at found
    exact absurd found (latest_ne_none member)
  | some held =>
    obtain ⟨other,there,_,path,slot,rfl⟩ := operationAt_inv found
    rw [only other there path.symm slot.symm]

theorem httpPath_inj (clean : '/' ∉ one.project.toList) (cleanOther : '/' ∉ two.project.toList) :
    httpPath one = httpPath two ↔ one.project = two.project ∧
      pathSuffix one.key one.method = pathSuffix two.key two.method := by
  have grouped (route : Route) : httpPath route =
      "/" ++ (route.project ++ String.singleton '/' ++ pathSuffix route.key route.method) := by
    rw [show String.singleton '/' = "/" from rfl]
    simp only [httpPath,String.append_assoc]
  rw [grouped,grouped,String.append_right_inj]
  exact append_separator_inj clean cleanOther

/-- The rest of a key that names its path is that path. -/
theorem Plain.rest_eq (plain : Plain method key segments) (cleanMethod : '/' ∉ method.toList) :
    key = method ++ "/" ++ rest ↔ pathSuffix key method = rest := by
  rw [plain.suffix cleanMethod]
  conv_lhs => rw [plain.joined]
  exact String.append_right_inj (method ++ "/")

theorem injectiveOnRoutes_of_distinguishable (clean : ∀ route, HasRoute http route → '/' ∉ route.project.toList)
    (given : Distinguishable http) : InjectiveOnRoutes http serviceVersion := by
  have same (one two : Route) (first : HasRoute http one) (second : HasRoute http two)
      (methods : toAsciiLowercase one.method = toAsciiLowercase two.method)
      (alike : LookAlike one.project (pathSuffix one.key one.method) two.project (pathSuffix two.key two.method)) :
      one = two := by
    obtain ⟨_,plain⟩ := given.plain one first
    obtain ⟨_,plainOther⟩ := given.plain two second
    have slash := (not_mem_method (given.methods one first)).1
    have slashOther := (not_mem_method (given.methods two second)).1
    exact given.apart one two _ _ first second ((plain.rest_eq slash).mpr rfl) ((plainOther.rest_eq slashOther).mpr rfl)
      (eqIgnoreAsciiCase_iff.mpr methods) alike
  have slots (one two : Route) (first : HasRoute http one) (second : HasRoute http two)
      (path : httpPath one = httpPath two) (slot : httpSlot one = httpSlot two) : one = two := by
    obtain ⟨project,suffix⟩ := (httpPath_inj (clean one first) (clean two second)).mp path
    exact same one two first second slot (.inl ⟨project,suffix ▸ Alike.refl _⟩)
  refine ⟨?_,?_,slots,?_⟩
  · intro route inside
    exact operationAt_own inside (given.methods route inside) fun other there path slot => slots other route there inside path slot
  · intro route inside
    exact ⟨_,rfl,(resolves_iff (not_mem_method (given.methods route inside)).1).mpr ⟨inside,given.plain route inside⟩⟩
  · intro path slot first otherPath otherSlot second found foundOther ids
    obtain ⟨one,inside,isHttp,rfl,rfl,rfl⟩ := operationAt_inv found
    obtain ⟨two,there,isHttpOther,rfl,rfl,rfl⟩ := operationAt_inv foundOther
    rw [operation_id,operation_id,Option.some.injEq,Json.string.injEq,operationId_eq_iff isHttp isHttpOther] at ids
    obtain rfl := same one two inside there (eqIgnoreAsciiCase_iff.mp ids.1) ids.2
    exact ⟨rfl,rfl⟩

theorem distinguishable_of_injectiveOnRoutes (given : InjectiveOnRoutes http serviceVersion) :
    Distinguishable http := by
  have methods (route : Route) (inside : HasRoute http route) : isHttpMethod route.method = true := by
    obtain ⟨other,_,isHttp,_,slot,_⟩ := operationAt_inv (given.own route inside)
    have lowered : toAsciiLowercase route.method = toAsciiLowercase other.method := slot
    rwa [isHttpMethod_iff,lowered,← isHttpMethod_iff]
  have plains (route : Route) (inside : HasRoute http route) : ∃ segments, Plain route.method route.key segments := by
    obtain ⟨path,same,resolved⟩ := given.resolves route inside
    obtain rfl := (String.append_right_inj _).mp same
    exact ((resolves_iff (not_mem_method (methods route inside)).1).mp resolved).2
  refine ⟨methods,plains,?_⟩
  intro one two rest otherRest inside there key otherKey method alike
  have isHttp := methods one inside
  have isHttpOther := methods two there
  obtain ⟨_,plain⟩ := plains one inside
  obtain ⟨_,plainOther⟩ := plains two there
  obtain rfl := (plain.rest_eq (not_mem_method isHttp).1).mp key
  obtain rfl := (plainOther.rest_eq (not_mem_method isHttpOther).1).mp otherKey
  have ids : (operation one).member? "operationId" = (operation two).member? "operationId" := by
    rw [operation_id,operation_id,(operationId_eq_iff isHttp isHttpOther).mpr ⟨method,alike⟩]
  obtain ⟨path,slot⟩ := given.ids _ _ _ _ _ _ (given.own one inside) (given.own two there) ids
  exact given.slots one two inside there path slot

open DslLoader Listing

theorem isFileName_of_buckets {root : Listing} (named : root.WellNamed) (member : (project,method) ∈ buckets root) :
    IsFileName project := by
  induction root with
  | nil => cases member
  | file name content rest ih => exact ih named.2.2 member
  | dir name entries rest _ ih =>
    obtain ⟨isName,_,_,others⟩ := named
    rcases List.mem_append.mp member with here | later
    · rcases List.mem_cons.mp here with same | here
      · obtain ⟨rfl,_⟩ := Prod.mk.inj same
        exact isName
      · obtain ⟨_,_,same⟩ := List.mem_map.mp here
        obtain ⟨rfl,_⟩ := Prod.mk.inj same
        exact isName
    · exact ih others later

theorem loaded_project {loader : DslLoader} {out : LoadedProjects} (tree : FileTree)
    (accepted : loader.loadEverything tree.listing = .ok out)
    (inside : HasRoute out.http route) : '/' ∉ route.project.toList := by
  obtain ⟨loaded,given⟩ := (loadEverything_ok_iff tree.named).mp ⟨out,accepted⟩
  obtain ⟨result,ok,_,_,has⟩ := loadEverything_find tree.named given
  cases accepted.symm.trans ok
  have project : route.project ∈ out.http := by
    by_contra absent
    unfold HasRoute bucket at inside
    rw [AList.lookup_eq_none.mpr absent] at inside
    cases inside
  exact (isFileName_of_buckets tree.named ((has (route.project,none)).mp project)).2.2.2

/-- The document of a loaded tree tells its routes apart when their methods are those of path items,
their keys name their paths, and no two of one method differ only in punctuation. -/
theorem injectiveOnRoutes_iff (loader : DslLoader) (tree : FileTree) {out : LoadedProjects}
    (accepted : loader.loadEverything tree.listing = .ok out) (serviceVersion : String) :
    InjectiveOnRoutes out.http serviceVersion ↔ Distinguishable out.http :=
  ⟨distinguishable_of_injectiveOnRoutes,
    injectiveOnRoutes_of_distinguishable fun _ inside => loaded_project tree accepted inside⟩

theorem hasRoute_iff {out : LoadedProjects} :
    HasRoute out.http route ↔ out.find (.route route.project route.method route.key) = some route.dsl := by
  unfold HasRoute bucket
  simp only [LoadedProjects.find]
  cases out.http.lookup route.project with
  | none =>
    constructor
    · intro inside
      cases inside
    · intro found
      cases found
  | some byMethod =>
    simp only [Option.bind_some]
    cases byMethod.lookup route.method with
    | none =>
      constructor
      · intro inside
        cases inside
      · intro found
        cases found
    | some dsls => rfl

/-- The routes of a loaded tree are those of its files. -/
theorem mem_loaded_of_hasRoute {loaded : List (Slot × Dsl)} {out : LoadedProjects}
    (finds : ∀ slot, out.find slot = latest loaded slot)
    (inside : HasRoute out.http route) : (.route route.project route.method route.key,route.dsl) ∈ loaded := by
  rw [hasRoute_iff,finds] at inside
  exact mem_of_latest inside

theorem guardedTree_injective : ∃ out, spellingLoader.loadEverything guardedTree.listing = .ok out ∧
    InjectiveOnRoutes out.http "0.1.0" := by
  obtain ⟨out,accepted,_,finds,_⟩ := loadEverything_find guardedTree.named guardedTree_items
  have only (route : Route) (inside : HasRoute out.http route) :
      route = ⟨"app","GET","GET/a/b",returningDsl "second"⟩ := by
    have listed := mem_loaded_of_hasRoute finds inside
    obtain ⟨project,method,key,dsl⟩ := route
    simpa [and_assoc] using listed
  refine ⟨out,accepted,(injectiveOnRoutes_iff spellingLoader guardedTree accepted "0.1.0").mpr ⟨?_,?_,?_⟩⟩
  · intro route inside
    rw [only route inside]
    decide +kernel
  · intro route inside
    rw [only route inside]
    refine ⟨["a","b"],by decide +kernel,List.cons_ne_nil _ _,by decide +kernel,?_⟩
    intro more same
    simp at same
  · intro one two rest otherRest inside there _ _ _ _
    rw [only one inside,only two there]

/-- Two files whose names differ in punctuation only. -/
def twinEntries : Listing := .file "a-b.yml" (.ok firstContent) (.file "a_b.yml" (.ok secondContent) .nil)

theorem twin_wellNamed : (Listing.dir "app" (.dir "GET" twinEntries .nil) .nil).WellNamed := by
  have dirs : IsFileName "app" ∧ IsFileName "GET" := by unfold IsFileName; decide +kernel
  have files : IsFileName "a-b.yml" ∧ IsFileName "a_b.yml" := by unfold IsFileName; decide +kernel
  exact ⟨dirs.1,by simp [names],⟨dirs.2,by simp [names],⟨files.1,by decide +kernel,files.2,by simp [names],trivial⟩,
    trivial⟩,trivial⟩

def twinTree : FileTree := ⟨_,twin_wellNamed⟩

theorem twinTree_items : Eff.AllOk (spellingLoader.items twinTree.listing)
    [(.route "app" "GET" "GET/a-b",returningDsl "first"),(.route "app" "GET" "GET/a_b",returningDsl "second")] := by
  have first (path : String) : spellingLoader.fileItem "GET" path [] "a-b.yml" (.ok firstContent) =
      .ok (.route "GET/a-b",returningDsl "first") := by
    unfold fileItem
    rw [if_neg (by decide +kernel),parseFile_first,show buildDslKey [] "a-b.yml" "GET" = "GET/a-b" by decide +kernel]
    rfl
  have second (path : String) : spellingLoader.fileItem "GET" path [] "a_b.yml" (.ok secondContent) =
      .ok (.route "GET/a_b",returningDsl "second") := by
    unfold fileItem
    rw [if_neg (by decide +kernel),parseFile_second,show buildDslKey [] "a_b.yml" "GET" = "GET/a_b" by decide +kernel]
    rfl
  have processed : spellingLoader.isProcessableFile "a-b.yml" = true ∧
      spellingLoader.isProcessableFile "a_b.yml" = true := by decide +kernel
  have method : spellingLoader.subdirItems "DSL/app" "app" "GET" twinEntries =
      (spellingLoader.scanItems "GET" "DSL/app/GET" [] twinEntries).map
        (·.map fun item => (item.1.slot "app" "GET",item.2)) := by
    rfl
  unfold Eff.AllOk twinTree
  simp only [items,projectItems,subdirsItems,List.append_nil]
  rw [show spellingLoader.configPath ++ "/" ++ "app" = "DSL/app" from rfl,method]
  simp only [twinEntries,scanItems,processed.1,processed.2,if_true,first,second,List.append_nil]
  rfl

/-- Both files have the id `get_app_a_b`. -/
theorem twin_operations_share_id : ∃ out, spellingLoader.loadEverything twinTree.listing = .ok out ∧
    (∃ first second, operationAt (buildSpecFromHttp out.http "0.1.0") "/app/a-b" "get" = some first ∧
      operationAt (buildSpecFromHttp out.http "0.1.0") "/app/a_b" "get" = some second ∧
      first.member? "operationId" = some (.string "get_app_a_b") ∧
      second.member? "operationId" = some (.string "get_app_a_b")) ∧
    ¬ InjectiveOnRoutes out.http "0.1.0" := by
  obtain ⟨out,accepted,_,finds,_⟩ := loadEverything_find twinTree.named twinTree_items
  let dashed : Route := ⟨"app","GET","GET/a-b",returningDsl "first"⟩
  let underscored : Route := ⟨"app","GET","GET/a_b",returningDsl "second"⟩
  have only (route : Route) (inside : HasRoute out.http route) : route = dashed ∨ route = underscored := by
    have listed := mem_loaded_of_hasRoute finds inside
    obtain ⟨project,method,key,dsl⟩ := route
    simpa [dashed,underscored,and_assoc] using listed
  have held (route : Route) (listed : route = dashed ∨ route = underscored) : HasRoute out.http route := by
    rw [hasRoute_iff,finds,latest_of_nodup (by simp)]
    rcases listed with rfl | rfl
    · exact List.mem_cons_self
    · exact List.mem_cons_of_mem _ List.mem_cons_self
  have isHttp (route : Route) (listed : route = dashed ∨ route = underscored) : isHttpMethod route.method = true := by
    rcases listed with rfl | rfl <;> decide +kernel
  have paths : httpPath dashed = "/app/a-b" ∧ httpPath underscored = "/app/a_b" := by decide +kernel
  have slots : httpSlot dashed = "get" ∧ httpSlot underscored = "get" := by decide +kernel
  have names : operationId "app" "GET" "GET/a-b" = "get_app_a_b" ∧
      operationId "app" "GET" "GET/a_b" = "get_app_a_b" := by
    decide +kernel
  have own (route : Route) (listed : route = dashed ∨ route = underscored) :
      operationAt (buildSpecFromHttp out.http "0.1.0") (httpPath route) (httpSlot route) = some (operation route) := by
    refine operationAt_own (held route listed) (isHttp route listed) ?_
    intro other inside path _
    rcases only other inside with rfl | rfl <;> rcases listed with rfl | rfl
    · rfl
    · rw [paths.1,paths.2] at path
      simp at path
    · rw [paths.1,paths.2] at path
      simp at path
    · rfl
  have first := own dashed (.inl rfl)
  have second := own underscored (.inr rfl)
  rw [paths.1,slots.1] at first
  rw [paths.2,slots.2] at second
  have ids : (operation dashed).member? "operationId" = some (.string "get_app_a_b") ∧
      (operation underscored).member? "operationId" = some (.string "get_app_a_b") := by
    rw [operation_id,operation_id]
    exact ⟨congrArg (fun id => some (Json.string id)) names.1,congrArg (fun id => some (Json.string id)) names.2⟩
  refine ⟨out,accepted,⟨_,_,first,second,ids.1,ids.2⟩,?_⟩
  intro given
  have same := given.ids _ _ _ _ _ _ first second (ids.1.trans ids.2.symm)
  simp at same

end Injectivity

end Ruuter.OpenApi
