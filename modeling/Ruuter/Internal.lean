import Ruuter.Engine
import Ruuter.Router

/-! Internal DSLs: which requests from outside reach them, and whether a client can tell an
internal route from one that does not exist. -/
namespace Ruuter

/-- The DSL a request resolves to: the exact `WS` key of an upgrade that is accepted, else
the route of its method. -/
def routedDsl (r : Router) (tree : Tree) (req : Request) : Option Dsl :=
  match frontChecks r req with
  | .upgrade => (upgradeTarget tree req).map (·.2.2)
  | .refused _ | .route =>
    match pathSegments req.path with
    | [] => none
    | project :: segments =>
      (resolveDslWithPathParams tree.dsls project (r.uppercase req.method)
        ("/".intercalate segments)).map (·.1)

/-- Whatever the guards and steps would do, none of it happens: the state is as before, and
the answer is a 404 unless a check in front of routing refused the request. -/
def Hidden (r : Router) (tree : Tree) (req : Request) : Prop :=
  ∀ run s, ∃ response, handleRequestInner r run tree req s = (.ok response,s) ∧
    (response.status = 404 ∨ frontChecks r req = .refused response)

/-- The tree without the DSLs, of any method, that match a path. -/
def Tree.deletePath (tree : Tree) (path : String) : Tree :=
  match pathSegments path with
  | [] => tree
  | project :: segments =>
    { tree with
      dsls := Assoc.mapValues (fun name byMethod =>
        if name = project then
          Assoc.mapValues (fun method byKey =>
            Assoc.dropKeys (candidates method segments.reverse) byKey) byMethod
        else byMethod) tree.dsls }

/-- Two trees answer a request alike, whatever the guards and steps do. -/
def Indistinguishable (r : Router) (left right : Tree) (req : Request) : Prop :=
  ∀ run s, ∃ a b, (handleRequestInner r run left req s).1 = .ok a ∧
    (handleRequestInner r run right req s).1 = .ok b ∧ a.Same b

variable {r : Router} {run : Runner} {tree : Tree} {req : Request} {dsl : Dsl}

/-- The internal gate. -/
theorem routeRequest_internal
    (resolved : resolveDslWithPathParams tree.dsls project (r.uppercase req.method) path =
      some (dsl,key,params))
    (internal : dsl.effectiveInternal r.defaultInternal = true)
    (plain : dsl.declaration.bind (·.proxy) = none) :
    routeRequest r run tree req project path = pure (jsonResponse 404 (errorBody "Not Found")) := by
  simp only [routeRequest,resolved,plain,internal,if_true]

theorem handle_internal (front : frontChecks r req = .route) (routed : routedDsl r tree req = some dsl)
    (internal : dsl.effectiveInternal r.defaultInternal = true)
    (plain : dsl.declaration.bind (·.proxy) = none) :
    handleRequestInner r run tree req = pure (jsonResponse 404 (errorBody "Not Found")) := by
  simp only [routedDsl,front] at routed
  simp only [handleRequestInner,front]
  cases split : pathSegments req.path with
  | nil =>
    rw [split] at routed
    cases routed
  | cons project segments =>
    rw [split] at routed
    obtain ⟨⟨found,key,params⟩,resolved,rfl⟩ := Option.map_eq_some_iff.mp routed
    exact routeRequest_internal resolved internal plain

/-- A method without a DSL goes down the DSL branch. -/
theorem handle_unresolved (front : frontChecks r req = .route)
    (split : pathSegments req.path = project :: segments)
    (absent : resolveDslWithPathParams tree.dsls project (r.uppercase req.method)
      ("/".intercalate segments) = none) :
    handleRequestInner r run tree req = dslRoute r run tree req project ("/".intercalate segments) := by
  simp only [handleRequestInner,front,split,routeRequest,absent]

/-- A DSL that is neither a proxy route nor internal is run. -/
theorem handle_external (front : frontChecks r req = .route)
    (split : pathSegments req.path = project :: segments)
    (resolved : resolveDslWithPathParams tree.dsls project (r.uppercase req.method)
      ("/".intercalate segments) = some (dsl,key,params))
    (plain : dsl.declaration.bind (·.proxy) = none)
    (external : dsl.effectiveInternal r.defaultInternal = false) :
    handleRequestInner r run tree req = dslRoute r run tree req project ("/".intercalate segments) := by
  simp only [handleRequestInner,front,split,routeRequest,resolved,plain]
  rw [if_neg (by simp [external])]

theorem isolated_eq {m : M α} (inner : m { s with vars, guardStack := [] } = (result,t))
    (left : { t with vars := s.vars, guardStack := s.guardStack } = u) : isolated vars m s = (result,u) := by
  simp only [isolated,Eff.bracket,inner,left]

theorem guarded_open {target : M α} (looped : loop s = (.ok none,u)) :
    guarded loop refuse target s = target u := by
  simp only [guarded]
  rw [Eff.bind_eq_ok looped]

theorem wsUpgradeGuards_open (ctx : Ctx) (chain : List (String × Dsl)) (fresh : s.guardStack = []) :
    wsUpgradeGuards (fun _ _ => pure {}) ctx chain s = (.ok none,s) := by
  apply guardLoop_of_admitted (fun _ _ _ => rfl)
  · simp [fresh,maxGuardDepth]
  · simp [isGuardOnStack,fresh]
  · exact Admitted.of_open (by simp)

/-- An upgrade whose guards admit is accepted, internal or not. -/
theorem handleWsUpgrade_admitted (target : upgradeTarget tree req = some (project,key,dsl)) (s : St) :
    handleWsUpgrade r (fun _ _ => pure {}) tree req s =
      (.ok { status := 101, body := .upgraded project dsl req.queryMap req.headersMap },s) := by
  simp only [handleWsUpgrade,target]
  exact isolated_eq ((guarded_open (wsUpgradeGuards_open _ _ rfl)).trans rfl) rfl

/-- An internal DSL that is no proxy route is hidden from exactly the requests that are no
accepted WebSocket upgrade. -/
theorem hidden_iff_not_upgrade (r : Router) (tree : Tree) (req : Request) (dsl : Dsl)
    (routed : routedDsl r tree req = some dsl)
    (internal : dsl.effectiveInternal r.defaultInternal = true)
    (plain : dsl.declaration.bind (·.proxy) = none) :
    Hidden r tree req ↔ frontChecks r req ≠ .upgrade := by
  constructor
  · intro hidden upgrade
    simp only [routedDsl,upgrade] at routed
    obtain ⟨⟨project,key,found⟩,target,rfl⟩ := Option.map_eq_some_iff.mp routed
    obtain ⟨response,answered,either⟩ := hidden (fun _ _ => pure {}) {}
    simp only [handleRequestInner,upgrade] at answered
    rw [handleWsUpgrade_admitted target] at answered
    cases answered
    rcases either with missing | refused
    · have differ : (101 : UInt16) ≠ 404 := by decide
      exact absurd missing differ
    · rw [upgrade] at refused
      cases refused
  · intro front run s
    cases checked : frontChecks r req with
    | refused response =>
      refine ⟨response,?_,.inr rfl⟩
      simp only [handleRequestInner,checked]
      rfl
    | upgrade => exact absurd checked front
    | route =>
      refine ⟨jsonResponse 404 (errorBody "Not Found"),?_,.inl rfl⟩
      rw [handle_internal checked routed internal plain]
      rfl

/-- A DSL that is only for calls from inside. -/
def internalDsl : Dsl where
  steps := (∅ : StringMap DslStep).insert "declaration" (.declaration { internal := some true })

/-- An internal route and an internal WebSocket endpoint. -/
def internalTree : Tree where
  dsls := (∅ : HttpDsls).insert "app"
    ((∅ : StringMap (StringMap Dsl)).insert "GET" ((∅ : StringMap Dsl).insert "GET/jobs" internalDsl)
      |>.insert "WS" ((∅ : StringMap Dsl).insert "WS/feed" internalDsl))

def jobsRequest : Request where
  method := "GET"
  path := "/app/jobs"
  headers :=
    [("traceparent",some ⟨"00-0af7651916cd43dd8448eb211c80319c-b7ad6b7169203331-01",by decide⟩)]

def feedUpgrade : Request where
  method := "GET"
  path := "/app/feed"
  headers := [("upgrade",some ⟨"websocket",by decide⟩)]

theorem jobsRequest_hidden : Hidden {} internalTree jobsRequest :=
  (hidden_iff_not_upgrade {} internalTree jobsRequest internalDsl rfl rfl rfl).mpr nofun

/-- A WebSocket upgrade reaches an internal endpoint. -/
theorem feedUpgrade_not_hidden :
    routedDsl {} internalTree feedUpgrade = some internalDsl ∧
      internalDsl.effectiveInternal false = true ∧ ¬ Hidden {} internalTree feedUpgrade := by
  refine ⟨rfl,rfl,?_⟩
  intro hidden
  obtain ⟨response,answered,either⟩ := hidden (engine {} 1).run {}
  have accepted : (handleRequestInner {} (engine {} 1).run internalTree feedUpgrade {}).1 =
      .ok { status := 101, body := .upgraded "app" internalDsl feedUpgrade.queryMap feedUpgrade.headersMap } :=
    rfl
  rw [answered] at accepted
  cases accepted
  rcases either with missing | refused
  · have differ : (101 : UInt16) ≠ 404 := by decide
    exact differ missing
  · cases refused

section Absent
variable {project : String} {segments : List String}

theorem lookup_deletePath (split : pathSegments path = project :: segments)
    (member : key ∈ candidates method segments.reverse) :
    lookupDsl (tree.deletePath path).dsls project method key = none := by
  simp only [lookupDsl,Tree.deletePath,split,Assoc.lookup_mapValues]
  cases tree.dsls.lookup project with
  | none => rfl
  | some byMethod =>
    simp only [Option.map_some,if_true,Option.bind_some,Assoc.lookup_mapValues]
    cases byMethod.lookup method with
    | none => rfl
    | some byKey => exact Assoc.lookup_dropKeys member byKey

/-- No method resolves a path that was deleted. -/
theorem resolve_deletePath (split : pathSegments path = project :: segments) :
    resolveDslWithPathParams (tree.deletePath path).dsls project method ("/".intercalate segments) =
      none := by
  have clean : ∀ segment ∈ segments, segment ≠ "" ∧ '/' ∉ segment.toList := by
    intro segment member
    have whole : segment ∈ pathSegments path := by
      rw [split]
      exact List.mem_cons_of_mem _ member
    exact mem_pathSegments whole
  simp only [resolveDslWithPathParams]
  cases found : ((tree.deletePath path).dsls.lookup project).bind (·.lookup method) with
  | none => rfl
  | some byMethod =>
    rw [pathSegments_intercalate clean]
    apply resolveSegments_eq_none
    intro key member
    have absent : lookupDsl (tree.deletePath path).dsls project method key = none :=
      lookup_deletePath split member
    obtain ⟨byProject,first,second⟩ := Option.bind_eq_some_iff.mp found
    simpa only [lookupDsl,first,second,Option.bind_some] using absent

theorem upgradeTarget_deletePath : upgradeTarget (tree.deletePath req.path) req = none := by
  unfold upgradeTarget
  split
  · rename_i project segment rest split
    have member : routeKey "WS" (segment :: rest) ∈ candidates "WS" (segment :: rest).reverse := by
      obtain ⟨last,before,eq⟩ := List.exists_cons_of_ne_nil
        (l := (segment :: rest).reverse) (by simp)
      rw [eq,candidates,← eq,List.reverse_reverse]
      exact List.mem_cons_self
    simp only [lookup_deletePath split member,Option.map_none]
  · rfl

end Absent

theorem parseBody_refusal (refused : parseBody r mime bytes = .error refusal) :
    ∃ status value, refusal = jsonResponse status value ∧ (status = 400 ∨ status = 413) := by
  unfold parseBody at refused
  dsimp only at refused
  split at refused
  · cases refused
  · split at refused
    · split at refused
      · cases refused
      · cases refused
      · cases refused
        exact ⟨400,_,rfl,.inl rfl⟩
    · split at refused
      · cases refused
      · split at refused
        · split at refused
          · cases refused
            exact ⟨400,_,rfl,.inl rfl⟩
          · split at refused
            · cases refused
            · cases refused
              exact ⟨413,_,rfl,.inr rfl⟩
            · cases refused
              exact ⟨413,_,rfl,.inr rfl⟩
            · cases refused
              exact ⟨400,_,rfl,.inl rfl⟩
        · split at refused
          · cases refused
          · cases refused

/-- The checks of the body answer 400 or 413. -/
theorem readBody_refusal (refused : readBody r req = .error refusal) :
    ∃ status value, refusal = jsonResponse status value ∧ (status = 400 ∨ status = 413) := by
  unfold readBody at refused
  split at refused
  · rename_i early
    unfold contentLengthRefusal at early
    split at early
    · cases early
    · split at early
      · rw [← Except.error.inj refused,← Option.some.inj early]
        exact ⟨413,_,rfl,.inr rfl⟩
      · cases early
  · split at refused
    · cases refused
      exact ⟨400,_,rfl,.inl rfl⟩
    · exact parseBody_refusal refused

theorem insertHeader_lookup {response : Response} (named : headerName name = some lower)
    (valid : headerValue value = some value) :
    (response.insertHeader name value).headers.lookup lower = some value := by
  simp only [Response.insertHeader,named,valid]
  exact AList.lookup_insert _

theorem insertHeader_lookup_ne {response : Response} (named : headerName name = some lower)
    (other : key ≠ lower) :
    (response.insertHeader name value).headers.lookup key = response.headers.lookup key := by
  simp only [Response.insertHeader,named]
  cases headerValue value with
  | none => rfl
  | some valid => exact AList.lookup_insert_ne other

theorem echoTrace_lookup (valid : headerValue traceparent = some traceparent) (response : Response) :
    (echoTrace traceparent response).headers.lookup "traceparent" = some traceparent := by
  have traced : (response.insertHeader "traceparent" traceparent).headers.lookup "traceparent" =
      some traceparent := insertHeader_lookup (by decide) valid
  unfold echoTrace
  dsimp only
  split
  · have named : headerName "x-trace-id" = some "x-trace-id" := by decide
    rw [insertHeader_lookup_ne named (by decide)]
    exact traced
  · exact traced

theorem echoTrace_lookup_ne (untraced : key ≠ "traceparent") (other : key ≠ "x-trace-id")
    (response : Response) :
    (echoTrace traceparent response).headers.lookup key = response.headers.lookup key := by
  have traced : (response.insertHeader "traceparent" traceparent).headers.lookup key =
      response.headers.lookup key := insertHeader_lookup_ne (by decide) untraced
  unfold echoTrace
  dsimp only
  split
  · rw [insertHeader_lookup_ne (by decide) other]
    exact traced
  · exact traced

/-- One default header of a response. -/
def addDefaultHeader (response : Response) (entry : Sigma fun _ : String => String) : Response :=
  match headerName entry.1, headerValue entry.2 with
  | some name, some value =>
    if name ∈ response.headers then response
    else { response with headers := response.headers.insert name value }
  | _, _ => response

theorem applyDefaultResponseHeaders_eq (response : Response) :
    applyDefaultResponseHeaders r response = r.responseDefaultHeaders.entries.foldl addDefaultHeader response :=
  rfl

theorem addDefaultHeader_lookup {entry : Sigma fun _ : String => String}
    (held : response.headers.lookup key = some value) :
    (addDefaultHeader response entry).headers.lookup key = some value := by
  unfold addDefaultHeader
  split
  · rename_i name _ _ _
    split
    · exact held
    · rename_i absent
      have other : key ≠ name := by
        rintro rfl
        exact absent (AList.lookup_isSome.mp (by rw [held]; rfl))
      rw [AList.lookup_insert_ne other]
      exact held
  · exact held

/-- Default headers leave a header that is set. -/
theorem applyDefaultResponseHeaders_lookup (held : response.headers.lookup key = some value) :
    (applyDefaultResponseHeaders r response).headers.lookup key = some value := by
  rw [applyDefaultResponseHeaders_eq]
  exact Assoc.foldl_preserves (P := fun answer : Response => answer.headers.lookup key = some value)
    (fun _ _ => addDefaultHeader_lookup) _ held

/-- The end of the DSL branch. -/
theorem dslRoute_outcome (read : readBody r req = .ok body)
    (executed : executeDsl r run tree project req.method path body (stringValues req.queryMap)
      (dslHeaders r req) (resolveOrigin r req (dslHeaders r req)) s = (outcome,t)) :
    ∃ traceparent u, traceparentOf r (req.header "traceparent") t = (.ok traceparent,u) ∧
      dslRoute r run tree req project path s = (.ok (applyDefaultResponseHeaders r
        (echoTrace traceparent (outcomeResponse r tree project path outcome))),u) := by
  obtain ⟨traceparent,u,traced⟩ : ∃ traceparent u,
      traceparentOf r (req.header "traceparent") t = (.ok traceparent,u) := by
    cases req.header "traceparent" with
    | none => exact ⟨_,_,rfl⟩
    | some given => exact ⟨_,_,rfl⟩
  refine ⟨traceparent,u,traced,?_⟩
  simp only [dslRoute,read]
  rw [Eff.bind_eq_ok (Eff.attempt_eq executed),Eff.bind_eq_ok traced]
  rfl

theorem executeDsl_absent
    (absent : resolveDslWithPathParams tree.dsls project (r.uppercase method) path = none) (s : St) :
    executeDsl r run tree project method path body query headers origin s =
      (.error (.fileNotFound ("DSL not found: " ++ r.uppercase method ++ "/" ++ path)),s) := by
  simp only [executeDsl,absent]
  rfl

/-- Where nothing resolves, a request whose body is read gets an answer that names its trace. -/
theorem dslRoute_absent
    (absent : resolveDslWithPathParams tree.dsls project (r.uppercase req.method) path = none)
    (read : readBody r req = .ok body) (given : req.header "traceparent" = some traceparent) (s : St) :
    dslRoute r run tree req project path s =
      (.ok (applyDefaultResponseHeaders r (echoTrace traceparent (notFoundResponse tree project path))),s) := by
  obtain ⟨found,u,traced,answered⟩ := dslRoute_outcome read (executeDsl_absent absent s)
  rw [given] at traced
  cases traced
  exact answered

theorem Same.refl (response : Response) : response.Same response := ⟨rfl,fun _ => rfl,rfl⟩

theorem headerValue_header (given : req.header name = some value) : headerValue value = some value := by
  obtain ⟨held,_,text⟩ := Option.bind_eq_some_iff.mp given
  obtain ⟨header,_,rfl⟩ := Option.map_eq_some_iff.mp text
  exact headerValue_text header

/-- A route behind the internal gate differs from an absent one: the answer of the gate has no
trace headers, and it comes before the checks of the body. -/
theorem gate_differs (front : frontChecks r req = .route) (routed : routedDsl r tree req = some dsl)
    (internal : dsl.effectiveInternal r.defaultInternal = true)
    (plain : dsl.declaration.bind (·.proxy) = none) (traced : req.header "traceparent" = some traceparent)
    (valid : headerValue traceparent = some traceparent) :
    ¬ Indistinguishable r tree (tree.deletePath req.path) req := by
  intro same
  obtain ⟨left,right,gate,other,equal⟩ := same (fun _ _ => pure {}) {}
  rw [handle_internal front routed internal plain] at gate
  cases gate
  cases split : pathSegments req.path with
  | nil => simp [routedDsl,front,split] at routed
  | cons project segments =>
    simp only [handleRequestInner,front,split,routeRequest,resolve_deletePath split] at other
    cases read : readBody r req with
    | error refusal =>
      simp only [dslRoute,read] at other
      cases other
      obtain ⟨status,value,rfl,bad | large⟩ := readBody_refusal read
      · exact absurd (equal.status.trans bad) (by decide)
      · exact absurd (equal.status.trans large) (by decide)
    | ok body =>
      rw [dslRoute_absent (resolve_deletePath split) read traced] at other
      cases other
      have headers := equal.headers "traceparent"
      rw [applyDefaultResponseHeaders_lookup (echoTrace_lookup valid _)] at headers
      have bare : (jsonResponse 404 (errorBody "Not Found")).headers.lookup "traceparent" = none := rfl
      rw [bare] at headers
      cases headers

theorem upgrade_differs (front : frontChecks r req = .upgrade) (routed : routedDsl r tree req = some dsl) :
    ¬ Indistinguishable r tree (tree.deletePath req.path) req := by
  intro same
  simp only [routedDsl,front] at routed
  obtain ⟨⟨project,key,found⟩,target,rfl⟩ := Option.map_eq_some_iff.mp routed
  obtain ⟨left,right,accepted,missing,equal⟩ := same (fun _ _ => pure {}) {}
  simp only [handleRequestInner,front] at accepted missing
  rw [handleWsUpgrade_admitted target] at accepted
  cases accepted
  have absent : right.status = 404 := by
    simp only [handleWsUpgrade,upgradeTarget_deletePath] at missing
    split at missing
    · cases missing
      rfl
    · cases missing
      rfl
  have differ : (101 : UInt16) ≠ 404 := by decide
  exact differ (equal.status.trans absent)

/-- An internal route that is no proxy route looks like an absent one to exactly the requests
that a check in front of routing refuses. -/
theorem indistinguishable_iff_refused (r : Router) (tree : Tree) (req : Request) (dsl : Dsl)
    (traced : (req.header "traceparent").isSome) (routed : routedDsl r tree req = some dsl)
    (internal : dsl.effectiveInternal r.defaultInternal = true)
    (plain : dsl.declaration.bind (·.proxy) = none) :
    Indistinguishable r tree (tree.deletePath req.path) req ↔
      ∃ response, frontChecks r req = .refused response := by
  constructor
  · intro same
    cases front : frontChecks r req with
    | refused response => exact ⟨response,rfl⟩
    | upgrade => exact absurd same (upgrade_differs front routed)
    | route =>
      obtain ⟨traceparent,given⟩ := Option.isSome_iff_exists.mp traced
      exact absurd same (gate_differs front routed internal plain given (headerValue_header given))
  · rintro ⟨response,front⟩ run s
    refine ⟨response,response,?_,?_,Same.refl response⟩
    · simp only [handleRequestInner,front]
      rfl
    · simp only [handleRequestInner,front]
      rfl

/-- Of a router that only takes `POST`. -/
theorem refused_jobsRequest_indistinguishable :
    Indistinguishable { allowedMethodTypes := ["POST"] } internalTree
      (internalTree.deletePath jobsRequest.path) jobsRequest :=
  (indistinguishable_iff_refused { allowedMethodTypes := ["POST"] } internalTree jobsRequest internalDsl
    rfl rfl rfl rfl).mpr ⟨_,rfl⟩

/-- The answer to a request for an internal route gives the route away. -/
theorem jobsRequest_distinguishable :
    routedDsl {} internalTree jobsRequest = some internalDsl ∧
      internalDsl.effectiveInternal false = true ∧
      ¬ Indistinguishable {} internalTree (internalTree.deletePath jobsRequest.path) jobsRequest := by
  have routed : routedDsl {} internalTree jobsRequest = some internalDsl := rfl
  exact ⟨routed,rfl,gate_differs rfl routed rfl rfl rfl (by decide)⟩

end Ruuter
