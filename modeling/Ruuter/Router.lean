import Ruuter.Http
import Ruuter.Routing
import Ruuter.Steps

/-! The request handler (`src/router/mod.rs`): the gates in front, the upgrade, proxy and DSL
branches, and the assembly of the response. One request sees one loaded tree; what a reload
between its reads can do is the subject of `HotReload`. -/
namespace Ruuter

inductive MultipartError
  | tooManyParts (limit : Nat)
  | partTooLarge (limit : Nat)
  | parse (message : String)

/-- The configuration of a router with its defaults, and the functions it takes from
libraries. -/
structure Router where
  allowedMethodTypes : List String := ["GET","POST","PUT","PATCH","DELETE","OPTIONS"]
  incomingHeaders : StringMap String := ∅
  multipartMaxParts : Option Nat := some 100
  multipartMaxPartSize : Option Nat := some (4 * 1024 * 1024)
  csrfAllowedOrigins : List String := []
  csrfMethods : List String := ["POST","PUT","PATCH","DELETE"]
  requireIfMatch : Bool := false
  ifMatchMethods : List String := ["PUT","PATCH","DELETE"]
  trustedProxies : List String := []
  defaultInternal : Bool := false
  guardsMode : GuardMode := .stack
  defaultWrapper : Bool := true
  dslWithResponseStatus : Option UInt16 := none
  dslWithoutResponseStatus : Option UInt16 := none
  responseDefaultHeaders : StringMap String := ∅
  /-- `WebSocketUpgrade::from_request_parts`: the rejection of a handshake, if any. -/
  rejectHandshake : Request → Option Response := fun _ => none
  refererOrigin : String → Option String := fun _ => none
  canonicalIp : String → Option String := some
  parseJson : List UInt8 → Except String Json := fun _ => .ok .null
  parseForm : List UInt8 → List (String × String) := fun _ => []
  parseMultipart : List UInt8 → String → Option Nat → Option Nat →
    Except MultipartError (StringMap Json) := fun _ _ _ _ => .ok ∅
  utf8Lossy : List UInt8 → String := fun _ => ""
  uppercase : String → String := fun text => String.ofList (text.toList.flatMap toUppercase)
  errorChain : RuuterError → String := fun _ => ""
  generateTraceparent : Nat → String := fun _ => ""

/-- The loaded DSLs and guards. -/
structure Tree where
  dsls : HttpDsls
  guards : GuardDsls := ∅

/-- Where the checks in front of routing send a request. -/
inductive Front
  | refused (response : Response)
  | upgrade
  | route

section Handler
variable (r : Router) (run : Runner) (tree : Tree) (req : Request)

def anyIgnoreCase (methods : List String) (method : String) : Bool :=
  methods.any (eqIgnoreAsciiCase · method)

def originAllowed : Bool :=
  match req.header "origin" with
  | some origin => r.csrfAllowedOrigins.contains origin
  | none =>
    match (req.header "referer").bind r.refererOrigin with
    | some origin => r.csrfAllowedOrigins.contains origin
    | none => false

def isWsUpgrade : Bool :=
  ((req.header "upgrade").map (eqIgnoreAsciiCase · "websocket")).getD false && req.method == "GET"

/-- Upgrade detection, the method allow-list, the CSRF check and the `If-Match` check. -/
def frontChecks : Front :=
  if isWsUpgrade req then
    match r.rejectHandshake req with
    | some rejection => .refused rejection
    | none => .upgrade
  else if !anyIgnoreCase r.allowedMethodTypes req.method then
    .refused (jsonResponse 405 (errorBody "Method Not Allowed"))
  else if !r.csrfAllowedOrigins.isEmpty && anyIgnoreCase r.csrfMethods req.method &&
      !originAllowed r req then
    .refused (jsonResponse 403 (errorBody "CSRF: origin not allowed"))
  else if r.requireIfMatch && anyIgnoreCase r.ifMatchMethods req.method &&
      !req.hasHeader "if-match" then
    .refused (jsonResponse 428 (errorBody "If-Match header is required for this method"))
  else .route

/-- `resolve_origin`. -/
def resolveOrigin (headers : StringMap String) : String :=
  let peer := req.peer.bind r.canonicalIp
  let trusted := r.trustedProxies.filterMap r.canonicalIp
  let forwarded := (((headers.lookup "x-forwarded-for").bind fun value =>
    (Text.split value ',').head?).map Text.trim).filter (· ≠ "")
  let candidate := (forwarded.or ((headers.lookup "x-real-ip").map Text.trim)).bind r.canonicalIp
  match peer with
  | some ip => if trusted.contains ip then candidate.getD ip else ip
  | none => "unknown"

/-- The headers a DSL sees: the configured ones win over those of the client. -/
def dslHeaders : StringMap String :=
  r.incomingHeaders.entries.foldl (fun map entry =>
    map.insert (Text.toAsciiLowercase entry.1) entry.2) req.headersMap

def stringValues (map : StringMap String) : StringMap Json :=
  map.entries.foldl (fun values entry => values.insert entry.1 (.string entry.2)) ∅

def withPathParams (query : StringMap Json) (params : List String) : StringMap Json :=
  query.insert "pathParams" (.array (params.map Json.string))

/-- The traceparent of a request, generated when the headers have none. -/
def traceparentOf (given : Option String) : M String :=
  match given with
  | some traceparent => pure traceparent
  | none => consult r.generateTraceparent

/-- The DSL behind the guards, on the view its declaration leaves. -/
def runDeclared (dsl : Dsl) (ctx : Ctx) (method traceparent : String) : M DslExecutionResult :=
  match dsl.declaration with
  | none => run dsl ctx
  | some decl => do
    let view ← ofExcept (applyDeclaration decl ctx.view method traceparent)
    run dsl (ctx.replaceRequestView view)

/-- `execute_dsl`. -/
def executeDsl (project method path : String) (body query : StringMap Json)
    (headers : StringMap String) (origin : String) : M DslExecutionResult := do
  let upper := r.uppercase method
  match resolveDslWithPathParams tree.dsls project upper path with
  | none => Eff.throw (.fileNotFound ("DSL not found: " ++ upper ++ "/" ++ path))
  | some (dsl,key,params) =>
    let traceparent ← traceparentOf r (headers.lookup "traceparent")
    let ctx : Ctx :=
      { requestBody := body
        requestQuery := withPathParams query params
        requestHeaders := headers.insert "traceparent" traceparent
        requestOrigin := origin
        project
        traceparent := some traceparent }
    isolated ∅ (guarded (executeDslGuards run ctx upper
        (applicableGuards tree.guards r.guardsMode project key)) Refusal.raise
      (runDeclared run dsl ctx upper traceparent))

/-- `build_guard_short_circuit`. -/
def buildGuardShortCircuit (result : DslExecutionResult) : Response :=
  (jsonResponse (statusFromU16 result.status 403) (result.value.getD (.object []))).insertHeaders
    result.headers

/-- What the proxy branch answers when its guards refuse. -/
def refuseProxy : Refusal → M Response
  | .contract e => pure (jsonResponse 400 (errorBody e.text))
  | .stack e => pure (jsonResponse 500 (errorBody e.text))
  | .failed _ => pure (jsonResponse 500 (errorBody "guard execution failed"))
  | .denied result => pure (buildGuardShortCircuit result)

/-- The proxy branch of `handle_request_inner`: guards see the headers only, and the body
goes to the upstream. -/
def proxyRoute (project key : String) (params : List String) (proxy : ProxyDeclaration) :
    M Response := do
  let headers := dslHeaders r req
  let traceparent ← traceparentOf r (headers.lookup "traceparent")
  let ctx : Ctx :=
    { requestQuery := withPathParams (stringValues req.queryMap) params
      requestHeaders := headers.insert "traceparent" traceparent
      requestOrigin := resolveOrigin r req headers
      project
      traceparent := some traceparent }
  isolated ∅ (guarded (proxyGuards run ctx (r.uppercase req.method)
      (applicableGuards tree.guards r.guardsMode project key)) refuseProxy
    (pure { status := 200, body := .forwarded proxy (project ++ "|" ++ key) traceparent }))

/-- What `handle_ws_upgrade` answers when its guards refuse. -/
def refuseUpgrade : Refusal → M Response
  | .stack e => pure (textResponse 500 e.text)
  | .contract e | .failed e => pure (jsonResponse 500 (errorBody ("WS guard error: " ++ e.text)))
  | .denied result =>
    pure (jsonResponse (statusFromU16 result.status 403)
      (result.value.getD (errorBody "WS guard denied")))

/-- The DSL a WebSocket connection at a path runs: the exact key, no path parameters. -/
def upgradeTarget : Option (String × String × Dsl) :=
  match pathSegments req.path with
  | project :: segment :: rest =>
    let key := routeKey "WS" (segment :: rest)
    (lookupDsl tree.dsls project "WS" key).map (project,key,·)
  | _ => none

/-- `handle_ws_upgrade`. -/
def handleWsUpgrade : M Response :=
  match upgradeTarget tree req with
  | none =>
    if (pathSegments req.path).length < 2 then pure (textResponse 404 "Not found")
    else pure (jsonResponse 404 (errorBody "Not Found"))
  | some (project,key,dsl) =>
    let ctx : Ctx :=
      { requestQuery := stringValues req.queryMap
        requestHeaders := req.headersMap
        requestOrigin := "ws-upgrade"
        project
        traceparent := req.headersMap.lookup "traceparent" }
    isolated ∅ (guarded (wsUpgradeGuards run ctx
        (applicableGuards tree.guards r.guardsMode project key)) refuseUpgrade
      (pure { status := 101, body := .upgraded project dsl req.queryMap req.headersMap }))

def maxInboundBodyBytes : Nat := 16 * 1024 * 1024

/-- The preflight on a declared `Content-Length`. -/
def contentLengthRefusal : Option Response :=
  match (req.header "content-length").bind Text.parseU64 with
  | none => none
  | some declared =>
    if maxInboundBodyBytes < declared then
      some (jsonResponse 413 (.object
        [("cap",.ofNat maxInboundBodyBytes)
        ,("declared",.ofNat declared)
        ,("error",.string "body_too_large")
        ,("message",.string ("declared Content-Length " ++ toString declared ++
            " exceeds inbound body cap " ++ toString maxInboundBodyBytes ++ " (h2ck.me v1 T-8)"))]))
    else none

def mimeOf (contentType : String) : String :=
  Text.trim ((Text.split contentType ';').headD "")

def isJsonMime (mime : String) : Bool :=
  eqIgnoreAsciiCase mime "application/json" || Text.endsWith mime "+json"

/-- The body by its content type. -/
def parseBody (contentType : String) (bytes : List UInt8) : Except Response (StringMap Json) :=
  let mime := mimeOf contentType
  if bytes.isEmpty then .ok ∅
  else if isJsonMime mime then
    match r.parseJson bytes with
    | .ok (.object members) => .ok (ofMembers members)
    | .ok other => .ok ((∅ : StringMap Json).insert "value" other)
    | .error e => .error (jsonResponse 400 (errorBody ("invalid JSON body: " ++ e)))
  else if eqIgnoreAsciiCase mime "application/x-www-form-urlencoded" then
    .ok ((r.parseForm bytes).foldl (fun map pair => map.insert pair.1 (.string pair.2)) ∅)
  else if eqIgnoreAsciiCase mime "multipart/form-data" then
    match (Text.split contentType ';').findSome? fun part =>
        Text.stripPrefix (Text.trim part) "boundary=" with
    | none => .error (jsonResponse 400 (errorBody "multipart/form-data missing boundary"))
    | some boundary =>
      match r.parseMultipart bytes (Text.trimMatches boundary '\x22') r.multipartMaxParts
          r.multipartMaxPartSize with
      | .ok body => .ok body
      | .error (.tooManyParts limit) =>
        .error (jsonResponse 413 (.object
          [("error",.string "multipart_too_many_parts"),("limit",.ofNat limit)]))
      | .error (.partTooLarge limit) =>
        .error (jsonResponse 413 (.object
          [("error",.string "multipart_part_too_large"),("limit",.ofNat limit)]))
      | .error (.parse message) => .error (jsonResponse 400 (errorBody ("multipart parse: " ++ message)))
  else
    match Text.stripPrefix mime "text/" with
    | some subtype => .ok ((∅ : StringMap Json).insert subtype (.string (r.utf8Lossy bytes)))
    | none => .ok ∅

/-- The body of a request, or the response of the check it fails. -/
def readBody : Except Response (StringMap Json) :=
  match contentLengthRefusal req with
  | some refusal => .error refusal
  | none =>
    match req.body with
    | .error e => .error (jsonResponse 400 (errorBody ("body read error: " ++ e)))
    | .ok bytes => parseBody r (((dslHeaders r req).lookup "content-type").getD "") bytes

/-- The methods a path resolves for, sorted. -/
def methodsAllowedForPath (project path : String) : List String :=
  match tree.dsls.lookup project with
  | none => []
  | some byMethod =>
    (byMethod.keys.filter fun method =>
      (resolveDslWithPathParams tree.dsls project method path).isSome).insertionSort (· ≤ ·)

/-- The answer of a DSL run. -/
def dslResponse (result : DslExecutionResult) : Response :=
  let configured := if result.value.isSome then r.dslWithResponseStatus else r.dslWithoutResponseStatus
  let status := statusFromU16 (if result.status = 200 then configured.getD result.status
    else result.status) 200
  let wrap := result.wrapper.getD r.defaultWrapper
  let declared := (result.headers.entries.find? fun entry =>
    eqIgnoreAsciiCase entry.1 "content-type").map (·.2)
  let nonJson := (declared.map fun mime => !isJsonMime (mimeOf mime)).getD false
  let raw := result.value.getD (.object [])
  match raw with
  | .string content =>
    if !wrap && nonJson then (textResponse status content).insertHeaders result.headers
    else (jsonResponse status (if wrap then .object [("response",raw)] else raw)).insertHeaders
      result.headers
  | _ =>
    (jsonResponse status (if wrap then .object [("response",raw)] else raw)).insertHeaders
      result.headers

/-- The answer when no DSL was found: 405 when another method has the path. -/
def notFoundResponse (project path : String) : Response :=
  let allowed := methodsAllowedForPath tree project path
  if allowed.isEmpty then jsonResponse 404 (errorBody "Not Found")
  else
    (jsonResponse 405 (.object
      [("allow",.array (allowed.map Json.string)),("error",.string "Method Not Allowed")])).insertHeader
        "Allow" (", ".intercalate allowed)

def outcomeResponse (project path : String) : Except RuuterError DslExecutionResult → Response
  | .ok result => dslResponse r result
  | .error (.fileNotFound _) => notFoundResponse tree project path
  | .error (.badRequest message) => jsonResponse 400 (errorBody message)
  | .error e => jsonResponse 500 (errorBody (e.text ++ r.errorChain e))

/-- The trace headers of a response. -/
def echoTrace (traceparent : String) (response : Response) : Response :=
  let traced := response.insertHeader "traceparent" traceparent
  match traceIdFrom traceparent with
  | some traceId => traced.insertHeader "x-trace-id" traceId
  | none => traced

/-- `apply_default_response_headers`: a header that is set stays. -/
def applyDefaultResponseHeaders (response : Response) : Response :=
  r.responseDefaultHeaders.entries.foldl (fun response entry =>
    match headerName entry.1, headerValue entry.2 with
    | some name, some value =>
      if name ∈ response.headers then response
      else { response with headers := response.headers.insert name value }
    | _, _ => response) response

/-- The DSL branch of `handle_request_inner`, from the body on. -/
def dslRoute (project path : String) : M Response :=
  match readBody r req with
  | .error refusal => pure refusal
  | .ok body => do
    let headers := dslHeaders r req
    let outcome ← Eff.attempt (executeDsl r run tree project req.method path body
      (stringValues req.queryMap) headers (resolveOrigin r req headers))
    let traceparent ← traceparentOf r (req.header "traceparent")
    pure (applyDefaultResponseHeaders r (echoTrace traceparent
      (outcomeResponse r tree project path outcome)))

/-- Routing behind the front checks: the proxy branch, the internal gate, the DSL branch. -/
def routeRequest (project path : String) : M Response :=
  match resolveDslWithPathParams tree.dsls project (r.uppercase req.method) path with
  | none => dslRoute r run tree req project path
  | some (dsl,key,params) =>
    match dsl.declaration.bind (·.proxy) with
    | some proxy => proxyRoute r run tree req project key params proxy
    | none =>
      if dsl.effectiveInternal r.defaultInternal then pure (jsonResponse 404 (errorBody "Not Found"))
      else dslRoute r run tree req project path

/-- `handle_request_inner`. -/
def handleRequestInner : M Response :=
  match frontChecks r req with
  | .refused response => pure response
  | .upgrade => handleWsUpgrade r run tree req
  | .route =>
    match pathSegments req.path with
    | [] => pure (textResponse 404 "Not found")
    | project :: segments => routeRequest r run tree req project ("/".intercalate segments)

end Handler

section Assembly
variable {response : Response}

@[simp] theorem echoTrace_status (traceparent : String) :
    (echoTrace traceparent response).status = response.status := by
  unfold echoTrace
  dsimp only
  split
  · rw [insertHeader_status,insertHeader_status]
  · exact insertHeader_status ..

@[simp] theorem echoTrace_body (traceparent : String) :
    (echoTrace traceparent response).body = response.body := by
  unfold echoTrace
  dsimp only
  split
  · rw [insertHeader_body,insertHeader_body]
  · exact insertHeader_body ..

@[simp] theorem applyDefaultResponseHeaders_status (r : Router) :
    (applyDefaultResponseHeaders r response).status = response.status := by
  refine Assoc.foldl_keeps (f := Response.status) (fun answer entry => ?_) r.responseDefaultHeaders.entries response
  split
  · split <;> rfl
  · rfl

@[simp] theorem applyDefaultResponseHeaders_body (r : Router) :
    (applyDefaultResponseHeaders r response).body = response.body := by
  refine Assoc.foldl_keeps (f := Response.body) (fun answer entry => ?_) r.responseDefaultHeaders.entries response
  split
  · split <;> rfl
  · rfl

end Assembly
end Ruuter
