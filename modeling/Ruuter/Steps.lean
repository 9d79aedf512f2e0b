import Ruuter.Guards

/-! The step executors (`src/steps`), one function for each. A step that runs other steps or
whole DSLs does so through the engine it is given. -/
namespace Ruuter

/-- `StepResult`. `statusValue` is what `status:` evaluated to, kept beside the status code
it became. -/
structure StepResult where
  nextStep : Option String := none
  shouldReturn : Bool := false
  returnValue : Option Json := none
  returnStatus : Option UInt16 := none
  returnHeaders : Option (StringMap String) := none
  returnWrapper : Option Bool := none
  statusValue : Option Json := none

/-- The engine as an executor sees it: `run` and `execute_single_step`. -/
structure Engine where
  run : Runner
  step : DslStep → Ctx → M StepResult

/-- Distinct keys from the members of an object. -/
def ofMembers (members : List (String × Json)) : StringMap Json :=
  members.foldl (fun map member => map.insert member.1 member.2) ∅

/-- A string map as an object. -/
def headersObject (headers : StringMap String) : Json :=
  .object (headers.entries.foldr (fun entry members =>
    Json.insertMember entry.1 (.string entry.2) members) [])

/-- A number as an object member. -/
def ofStatus (status : UInt16) : Json := .ofNat status.toNat

section Executors
variable (h : Host) (engine : Engine) (ctx : Ctx)

/-- A string as it is, any other value as JSON text. -/
def jsonToString : Json → String
  | .string text => text
  | other => h.jsonText other

def bindResult (result : Option String) (value : Json) : M Unit :=
  match result with
  | some name => setVariable name value
  | none => pure ()

/-- `assign`. -/
def executeAssign (s : AssignStep) : M StepResult := do
  let _ ← Eff.collect (fun entry => do
    let value ← evaluate h ctx entry.2
    setVariable entry.1 value) s.assign.entries
  pure { nextStep := s.next }

def evaluateOption : Option Json → M (Option Json)
  | some value => some <$> evaluate h ctx value
  | none => pure none

/-- A status code from an evaluated `status:`. The cast to `u16` keeps the low 16 bits. -/
def statusOf : Json → Option UInt16
  | .number n => n.asU64.map (·.toUInt16)
  | _ => none

def addDefault (key : String) (value : Json) (members : List (String × Json)) :
    List (String × Json) :=
  if members.any (·.1 == key) then members else Json.insertMember key value members

def renderSetCookie : Json → String
  | .string text => text
  | .object members =>
    let all := addDefault "Max-Age" (.ofNat 28800) (addDefault "Secure" (.bool true)
      (addDefault "HttpOnly" (.bool true) (addDefault "Path" (.string "/") members)))
    "; ".intercalate (all.filterMap fun (key,value) =>
      match value with
      | .bool true => some key
      | .bool false => none
      | .string text => some (key ++ "=" ++ text)
      | other => some (key ++ "=" ++ h.jsonText other))
  | other => h.jsonText other

/-- The members that `headers:` of a `return` stands for: a mapping as it is written, or the
object a string evaluates to. -/
def returnHeaderSource : Option Json → M (Option (List (String × Json)))
  | none => pure none
  | some (.object members) => pure (some members)
  | some (.string text) => do
    match ← evaluate h ctx (.string text) with
    | .object members => pure (some members)
    | .null => pure none
    | other =>
      Eff.throw (.dslExecution "return"
        ("return step `headers`: expression must evaluate to an object, got " ++ other.kind))
  | some other =>
    Eff.throw (.dslExecution "return"
      ("return step `headers`: expected a mapping or `$\x7bexpr\x7d` string, got " ++
        h.jsonDebug other))

/-- Every member is evaluated, whichever form it came from; null drops the header. -/
def renderHeaders : Option (List (String × Json)) → M (Option (StringMap String))
  | none => pure none
  | some members => do
    let rendered ← Eff.collect (fun member => do
      let value ← evaluate h ctx member.2
      pure (if value.isNull then none
        else if eqIgnoreAsciiCase member.1 "Set-Cookie" then some (member.1,renderSetCookie h value)
        else some (member.1,jsonToString h value))) members
    pure (some (rendered.reduceOption.foldl (fun map entry => map.insert entry.1 entry.2) ∅))

/-- `return`. -/
def executeReturn (s : ReturnStep) : M StepResult := do
  let value ← evaluate h ctx s.returnValue
  let statusValue ← evaluateOption h ctx s.status
  let source ← returnHeaderSource h ctx s.headers
  let headers ← renderHeaders h ctx source
  pure
    { shouldReturn := true
      returnValue := some value
      returnStatus := statusValue.bind statusOf
      returnHeaders := headers
      returnWrapper := s.wrapper
      statusValue }

/-- `evaluate_map_arg`. An object that an expression gives is taken as it is. -/
def evaluateMapArg (stepName argName : String) : Option Json → M (Option (StringMap Json))
  | none => pure none
  | some (.object members) => do
    let values ← Eff.collect (fun member => do
      let value ← evaluate h ctx member.2
      pure (member.1,value)) members
    pure (some (ofMembers values))
  | some (.string text) => do
    match ← evaluate h ctx (.string text) with
    | .object members => pure (some (ofMembers members))
    | .null => pure none
    | other =>
      Eff.throw (.dslExecution stepName (stepName ++ " step arg `" ++ argName ++
        "`: expression must evaluate to an object, got " ++ other.kind))
  | some other =>
    Eff.throw (.dslExecution stepName (stepName ++ " step arg `" ++ argName ++
      "`: expected a YAML mapping or `$\x7bexpr\x7d` string, got " ++ other.kind))

/-- The method names `parse_method` knows. -/
def parseMethod : String → Option String
  | "http.get" => some "GET"
  | "http.post" => some "POST"
  | "http.put" => some "PUT"
  | "http.patch" => some "PATCH"
  | "http.delete" => some "DELETE"
  | _ => none

/-- A call carries the traceparent of its request unless it sets one itself. -/
def forwardTraceparent (headers : StringMap Json) : StringMap Json :=
  if headers.keys.any (eqIgnoreAsciiCase · "traceparent") then headers
  else
    match ctx.traceparent with
    | some tp => headers.insert "traceparent" (.string tp)
    | none => headers

def nonempty (map : StringMap Json) : Option (StringMap Json) :=
  if map.keys.isEmpty then none else some map

/-- The arguments of an outbound call, resolved. -/
structure ResolvedArgs where
  url : Json
  body : Option Json
  query : Option (StringMap Json)
  headers : StringMap Json

/-- The part the `http` and the `parallel_http` step share. -/
def resolveArgs (stepName : String) (args : HttpArgs) : M ResolvedArgs := do
  let url ← evaluate h ctx (.string args.url)
  let body ← evaluateOption h ctx args.body
  let query ← evaluateMapArg h ctx stepName "query" args.query
  let headers ← evaluateMapArg h ctx stepName "headers" args.headers
  pure { url, body, query, headers := forwardTraceparent ctx (headers.getD ∅) }

def sendRequest (request : Outbound) : M (Except RuuterError HttpResponse) := do
  emit (.requested request)
  consult (h.request · request)

def isStatusAllowed (status : UInt16) : Bool :=
  h.statusAllowList.isEmpty || h.statusAllowList.contains status

def lookupDsl (dsls : HttpDsls) (project method key : String) : Option Dsl :=
  (dsls.lookup project).bind fun byMethod => (byMethod.lookup method).bind (·.lookup key)

/-- `invoke_default_exception_dsl`, in a context of its own. -/
def invokeDefaultExceptionDsl (cfg : DefaultHttpDslConfig) (upstreamStatus : UInt16)
    (upstreamBody : Option Json) (failedRequestId : Option String) : M DslExecutionResult := do
  match ← consult h.loadDsls with
  | none =>
    Eff.throw (.invalidStep "default_dsl_in_case_of_exception invoked but engine has no DSL tree")
  | some dsls =>
    let method := h.uppercase cfg.requestType
    let key := method ++ "/" ++ Text.trimMatches cfg.dsl '/'
    match lookupDsl dsls cfg.project method key with
    | none =>
      Eff.throw (.fileNotFound ("default exception DSL not found: " ++ method ++ "/" ++ key ++
        " (project=" ++ cfg.project ++ ")"))
    | some dsl =>
      let own : StringMap Json := ((∅ : StringMap Json).insert "statusCode" (ofStatus upstreamStatus)
        |>.insert "responseBody" (upstreamBody.getD .null)
        |>.insert "failedRequestId" (.string (failedRequestId.getD "")))
      let child : Ctx :=
        { requestBody := cfg.body.entries.foldl (fun map entry => map.insert entry.1 entry.2) own
          requestQuery := cfg.query
          requestHeaders := cfg.headers
          requestOrigin := ctx.requestOrigin
          project := cfg.project
          traceparent := cfg.headers.lookup "traceparent" }
      isolated ∅ (engine.run dsl child)

/-- The default exception DSL, when one is configured. Its own failure is only logged. -/
def reportFailure (response : HttpResponse) : M Unit :=
  match h.defaultExceptionDsl with
  | none => pure ()
  | some cfg => do
    let _ ← Eff.attempt
      (invokeDefaultExceptionDsl h engine ctx cfg response.status response.body ctx.traceId)
    pure ()

/-- What a `result:` variable holds after a call. -/
def responseValue (response : HttpResponse) : Json :=
  .object [("response",.object (
    [("body",response.body.getD .null)] ++
    (response.error.map fun kind => ("error",Json.string kind)).toList ++
    [("headers",headersObject response.headers),("status",ofStatus response.status)]))]

/-- `http`, with the transport left open. -/
def executeHttpWith (send : Outbound → M (Except RuuterError HttpResponse)) (s : HttpStep) :
    M StepResult := do
  match parseMethod s.call with
  | none => Eff.throw (.invalidStep ("Unknown HTTP method: " ++ s.call))
  | some method =>
    let args ← resolveArgs h ctx "http" s.args
    let sent ← send
      { method
        url := args.url.asStr?.getD ""
        body := args.body
        query := args.query
        headers := nonempty args.headers
        timeout := s.timeout
        contentType := s.args.contentType }
    let response ← ofExcept sent
    bindResult s.result (responseValue response)
    if response.error.isSome then pure { nextStep := s.error.or s.next }
    else if isStatusAllowed h response.status then pure { nextStep := s.next }
    else
      match s.error with
      | some target => pure { nextStep := some target }
      | none =>
        reportFailure h engine ctx response
        Eff.throw (.httpRequest ("upstream status " ++ toString response.status.toNat ++
          " not in http_codes_allow_list"))

/-- `http`. -/
def executeHttp (s : HttpStep) : M StepResult := executeHttpWith h engine ctx (sendRequest h) s

/-- `http_mock`. The request is evaluated only when a result is bound. -/
def executeHttpMock (s : HttpMockStep) : M StepResult := do
  let body ← evaluate h ctx s.args.response
  match s.result with
  | none => pure { nextStep := s.next }
  | some name =>
    let response : Json := .object
      [("body",body),("headers",.object []),("status",ofStatus (s.args.status.getD 200))]
    let request ← evaluateOption h ctx s.args.request
    setVariable name (.object ((request.map fun value => ("request",value)).toList ++
      [("response",response)]))
    pure { nextStep := s.next }

def isTruthy : Json → Bool
  | .null => false
  | .bool b => b
  | .number (.posInt n) => n != 0
  | .number (.negInt _) => true
  | .number (.float q) => q != 0
  | .string text => text != ""
  | .array _ | .object _ => true

/-- `switch`: the first condition that holds. -/
def executeSwitch (s : SwitchStep) : M StepResult := do
  let target ← Eff.firstM (fun condition => do
    let value ← evaluate h ctx (.string condition.condition)
    pure (if isTruthy value then some condition.next else none)) s.switch
  pure { nextStep := target.or s.next }

/-- `log`. -/
def executeLog (s : LogStep) : M StepResult := do
  let _ ← evaluate h ctx s.log
  pure { nextStep := s.next }

/-- A refusal as an error, or as the answer of the guard that denied. -/
def Refusal.raise : Refusal → M DslExecutionResult
  | .contract e | .stack e | .failed e => Eff.throw e
  | .denied result => pure result

/-- `template`. Guards and target run in one child context. -/
def executeTemplate (s : TemplateStep) : M StepResult := do
  match ← consult h.loadDsls with
  | none =>
    Eff.throw (.invalidStep ("template step invoked but the engine has no DSL tree attached — " ++
      "use StepEngine::with_dsls at boot"))
  | some dsls =>
    let method := h.uppercase (s.requestType.getD "GET")
    let key := method ++ "/" ++ Text.trimMatches s.template '/'
    match lookupDsl dsls ctx.project method key with
    | none =>
      Eff.throw (.fileNotFound ("template not found: " ++ key ++ " (project=" ++ ctx.project ++ ")"))
    | some target =>
      let body ← evaluateMapArg h ctx "template" "body" s.body
      let query ← evaluateMapArg h ctx "template" "query" s.query
      let headers ← evaluateMapArg h ctx "template" "headers" s.headers
      let texts : StringMap String := ((headers.getD ∅).entries.filter (!·.2.isNull)).foldl
        (fun map entry => map.insert entry.1 (jsonToString h entry.2)) ∅
      let child : Ctx :=
        { requestBody := body.getD ∅
          requestQuery := query.getD ∅
          requestHeaders := texts
          requestOrigin := ctx.requestOrigin
          project := ctx.project
          traceparent := ctx.traceparent.or (texts.lookup "traceparent") }
      let chain ← consult fun now => applicableGuards (h.loadGuards now) h.guardsMode ctx.project key
      let result ← inChild (guarded (templateGuards engine.run child chain) Refusal.raise
        (engine.run target child))
      bindResult s.result (result.value.getD .null)
      pure { nextStep := s.next }

def evaluateKey (key : String) : M String := do
  let value ← evaluate h ctx (.string key)
  pure (jsonToString h value)

/-- A `state` operation on the store of the context's project. -/
def performState : StateOp → M Unit
  | .get key into => do
    let key ← evaluateKey h ctx key
    interference h
    let now ← Eff.get
    setVariable into ((now.store.get ctx.project key).getD .null)
  | .set key value => do
    let key ← evaluateKey h ctx key
    let value ← evaluate h ctx value
    interference h
    let now ← Eff.get
    match now.store.set ctx.project key value with
    | .ok store => Eff.modify fun s => { s with store }
    | .error message => Eff.throw (.invalidStep message)
  | .delete key => do
    let key ← evaluateKey h ctx key
    interference h
    Eff.modify fun s => { s with store := s.store.delete ctx.project key }

/-- `state`. -/
def executeState (s : StateStep) : M StepResult := do
  performState h ctx s.state
  pure { nextStep := s.next }

/-- The sub-steps of a body in order, up to one that returns. Their `next:` is ignored. -/
def runBody (steps : List DslStep) : M (Option StepResult) :=
  Eff.firstM (fun step => do
    let result ← engine.step step ctx
    pure (if result.shouldReturn then some result else none)) steps

def defaultMaxItems : UInt64 := 10000

/-- The rounds of `iterate`: the result of a sub-step that returned, or the collected values. -/
def iterateItems (b : IterateBody DslStep) : List Json → M (StepResult ⊕ List Json)
  | [] => pure (.inr [])
  | item :: rest => do
    setVariable b.itemVar item
    match ← runBody engine ctx b.body with
    | some early => pure (.inl early)
    | none =>
      let value ← evaluateOption h ctx b.collect
      match ← iterateItems b rest with
      | .inl early => pure (.inl early)
      | .inr later => pure (.inr (value.toList ++ later))

/-- `iterate`. -/
def executeIterate (s : IterateStep DslStep) : M StepResult := do
  let b := s.iterate
  match ← evaluate h ctx b.over with
  | .array items =>
    let limit := b.maxItems.getD defaultMaxItems
    if limit.toNat < items.length then
      Eff.throw (.invalidStep ("iterate.over has " ++ toString items.length ++
        " items but max_items is " ++ toString limit.toNat))
    else
      match ← iterateItems h engine ctx b items with
      | .inl early => pure early
      | .inr collected =>
        bindResult b.into (.array collected)
        pure { nextStep := s.next }
  | other =>
    Eff.throw (.invalidStep ("iterate.over must evaluate to an array, got " ++ h.jsonDebug other))

/-- `HttpResponseVal::to_json`. -/
def peerResponse (response : HttpResponse) : Json :=
  .object
    [("body",response.body.getD .null)
    ,("error",(response.error.map Json.string).getD .null)
    ,("headers",headersObject response.headers)
    ,("status",ofStatus response.status)]

def isTransportError (response : HttpResponse) : Bool :=
  response.status == 0 || response.error.isSome

/-- A peer, what its call gave, and the position of the peer. -/
structure PeerOutcome where
  index : Nat
  peer : Json
  outcome : Except RuuterError HttpResponse

/-- `build_peer_entry` and `build_peer_error_entry`, with the position beside the entry. -/
def PeerOutcome.entry (p : PeerOutcome) : Nat × Json :=
  let response :=
    match p.outcome with
    | .ok response => peerResponse response
    | .error e =>
      .object [("body",.null),("error",.string e.text),("headers",.object []),("status",.ofNat 0)]
  (p.index,.object [("peer",p.peer),("response",response)])

def collectFiltered (dropErrors : Bool) (finished : List PeerOutcome) : List (Nat × Json) :=
  (finished.filter fun p =>
    match p.outcome with
    | .ok response => !(dropErrors && isTransportError response)
    | .error _ => !dropErrors).map PeerOutcome.entry

/-- `predicate_matches`. A predicate that fails does not count its peer. -/
def predicateMatches (predicate : Option EarlyExitOn) (response : HttpResponse) : M Bool :=
  let (low,high) := (predicate.bind (·.statusRange)).getD (200,299)
  if isTransportError response || response.status < low || high < response.status then pure false
  else
    match predicate.bind (·.bodyPredicate) with
    | none => pure true
    | some expr => do
      setVariable "response" (peerResponse response)
      match ← Eff.attempt (evaluate h ctx (.string expr)) with
      | .ok value => pure (isTruthy value)
      | .error _ => pure false

/-- `collect_first_n`: peers count in the order in which they finish. -/
def collectFirstN (predicate : Option EarlyExitOn) : (missing : Nat) → List PeerOutcome →
    M (List (Nat × Json))
  | 0, _ | _ + 1, [] => pure []
  | missing + 1, p :: rest =>
    match p.outcome with
    | .error _ => collectFirstN predicate (missing + 1) rest
    | .ok response => do
      if ← predicateMatches h ctx predicate response then
        let later ← collectFirstN predicate missing rest
        pure (p.entry :: later)
      else collectFirstN predicate (missing + 1) rest

/-- The peers that `peers:` evaluated to. -/
def peersOf : Json → Except RuuterError (List Json)
  | .array peers => .ok peers
  | .null => .ok []
  | other =>
    .error (.invalidStep ("parallel_http.peers must evaluate to an array, got " ++ other.kind))

/-- What of the finished calls is bound. -/
def aggregated (b : ParallelHttpBody) (finished : List PeerOutcome) : M (List (Nat × Json)) :=
  match b.aggregate with
  | .collectOk => pure (collectFiltered true finished)
  | .collectAll => pure (collectFiltered false finished)
  | .firstN => collectFirstN h ctx b.earlyExitOn (max (b.firstN.getD 1).toNat 1) finished

/-- `parallel_http`, with the transport left open. All calls are resolved before the first is
sent. -/
def executeParallelHttpWith (sendAll : List Outbound → M (List (Except RuuterError HttpResponse)))
    (s : ParallelHttpStep) : M StepResult := do
  let b := s.parallelHttp
  let evaluated ← evaluate h ctx (.string b.peers)
  let peers ← ofExcept (peersOf evaluated)
  if peers.isEmpty then
    setVariable b.result (.array [])
    pure { nextStep := s.next }
  else
    match parseMethod b.call with
    | none =>
      Eff.throw (.invalidStep ("parallel_http.call unknown method: " ++ b.call ++
        " (expected http.get / http.post / http.put / http.patch / http.delete)"))
    | some method =>
      let resolved ← Eff.collect (fun peer => do
        setVariable "peer" peer
        let args ← resolveArgs h ctx "parallel_http" b.args
        pure (peer,args)) peers
      let outcomes ← sendAll (resolved.map fun (_,args) =>
        { method
          url := args.url.asStr?.getD ""
          body := args.body
          query := nonempty (args.query.getD ∅)
          headers := nonempty args.headers
          timeout := b.timeout
          contentType := b.args.contentType })
      let spawned := ((resolved.map (·.1)).zip outcomes).mapIdx fun index (peer,outcome) =>
        { index, peer, outcome : PeerOutcome }
      let order ← consult (h.finish · spawned.length)
      let finished := order.dedup.filterMap (spawned[·]?)
      let collected ← aggregated h ctx b finished
      let ordered := collected.insertionSort fun left right => left.1 ≤ right.1
      setVariable b.result (.array (ordered.map (·.2)))
      pure { nextStep := s.next }

/-- `parallel_http`. The peers are called one after another. -/
def executeParallelHttp (s : ParallelHttpStep) : M StepResult :=
  executeParallelHttpWith h ctx (Eff.collect (sendRequest h)) s

/-- `detach`. The block runs on a snapshot, and nothing it does comes back. -/
def executeDetach (s : DetachStep DslStep) : M StepResult := do
  let steps := s.detach.body
  if steps.isEmpty then Eff.throw (.invalidStep "detach.do must contain at least one step")
  else
    match ← consult h.detach with
    | .noRegistry =>
      Eff.throw (.invalidStep ("detach step used but no DetachRegistry wired on the engine " ++
        "(call StepEngine::with_detach_registry during boot)"))
    | .overflow cap =>
      Eff.throw (.dslExecution "detach" ("detach registry full (cap: " ++ toString cap.toNat ++
        "). Reduce fan-out, raise detach.max_inflight, or set null to opt out."))
    | .spawned cutOff =>
      let now ← Eff.get
      let _ ← Eff.attempt (isolated now.vars
        (runBody engine ctx (steps.take (cutOff.getD steps.length))))
      pure { nextStep := s.next }

def coerceTagValue : Json → String
  | .string text => text
  | .null => ""
  | other => h.jsonText other

/-- A value of `broadcast_where` that must not be empty. -/
def resolveWhereField (field : String) (value : Json) : M String := do
  let evaluated ← evaluate h ctx value
  let text := coerceTagValue h evaluated
  if text = "" then
    Eff.throw (.invalidStep ("ws_send: broadcast_where." ++ field ++ " resolved to an empty string"))
  else pure text

def resolveBroadcastWhere (bw : BroadcastWhere) : M (String × WhereOp) := do
  let tag ← resolveWhereField h ctx "tag" bw.tag
  match bw.equals, bw.contains with
  | some _, some _ =>
    Eff.throw (.invalidStep "ws_send: broadcast_where takes exactly one of `equals` / `contains`")
  | some value, none =>
    let want ← resolveWhereField h ctx "equals" value
    pure (tag,.equals want)
  | none, some value =>
    let needle ← resolveWhereField h ctx "contains" value
    pure (tag,.contains needle)
  | none, none =>
    Eff.throw (.invalidStep "ws_send: broadcast_where needs one of `equals` / `contains`")

/-- `WsRegistry::send`. -/
def sendTo (id : String) (payload : Json) : M Unit := do
  emit (.sent (.connection id) payload)
  let answer ← consult (h.wsSend · id payload)
  ofExcept answer

/-- A target that names connections. -/
def sendToTarget (payload : Json) : Option Json → M Unit
  | none =>
    Eff.throw (.invalidStep
      "ws_send: no `to`, no `broadcast_prefix`, and context has no connection_id")
  | some (.string id) => sendTo h id payload
  | some (.array ids) => do
    let _ ← Eff.collect (fun id => Eff.attempt (sendTo h (jsonToString h id) payload)) ids
    pure ()
  | some other =>
    Eff.throw (.invalidStep ("ws_send: `to` must resolve to a string or array of strings, got: " ++
      h.jsonText other))

/-- `ws_send`. A broadcast by tag wins over one by prefix, and both over `to:`. -/
def executeWsSend (s : WsSendStep) : M StepResult := do
  let args := s.wsSend
  let payload ← evaluate h ctx args.payload
  match args.broadcastWhere, args.broadcastPrefix with
  | some bw, _ =>
    let (tag,op) ← resolveBroadcastWhere h ctx bw
    emit (.sent (.tagged tag op) payload)
    pure { nextStep := s.next }
  | none, some idPrefix =>
    emit (.sent (.withPrefix idPrefix) payload)
    pure { nextStep := s.next }
  | none, none =>
    let target ← evaluateOption h ctx args.to
    sendToTarget h payload (target.or (ctx.connectionId.map Json.string))
    pure { nextStep := s.next }

/-- `ws_tag`. -/
def executeWsTag (s : WsTagStep) : M StepResult := do
  match ctx.connectionId with
  | none =>
    Eff.throw (.invalidStep
      "ws_tag: context has no connection_id — ws_tag is only valid inside a WS server DSL")
  | some id =>
    let tags ← Eff.collect (fun entry => do
      let value ← evaluate h ctx entry.2
      pure (entry.1,coerceTagValue h value)) s.wsTag.set.entries
    emit (.tagged id tags)
    let answer ← consult (h.wsSetTags · id tags)
    ofExcept answer
    pure { nextStep := s.next }

/-- A follower binds what its leader published. -/
def bindReceived (result : Option String) (value : Option Json) : M Unit :=
  match value with
  | some value => bindResult result value
  | none => pure ()

/-- `single_flight`. The registry decides the role; `SingleFlight` models the registry. -/
def executeSingleFlight (s : SingleFlightStep DslStep) : M StepResult := do
  let b := s.singleFlight
  let key ← evaluateKey h ctx b.key
  match ← consult (h.flight · key) with
  | .leader =>
    let ended ← Eff.attempt (runBody engine ctx b.body)
    let now ← Eff.get
    emit (.published key (match ended with
      | .error e => .error e.text
      | .ok _ => .ok (b.result.map fun name => (now.vars.lookup name).getD .null)))
    match ← ofExcept ended with
    | some early => pure early
    | none => pure { nextStep := s.next }
  | .received (.ok value) =>
    bindReceived b.result value
    pure { nextStep := s.next }
  | .received (.error message) =>
    Eff.throw (.dslExecution "single_flight" ("leader failed: " ++ message))
  | .closed =>
    Eff.throw (.dslExecution "single_flight"
      ("leader dropped without publishing (key=" ++ h.stringDebug key ++ ")"))
  | .timedOut =>
    Eff.throw (.timeout ("single_flight follower timed out after " ++ toString b.ttlMs.toNat ++
      "ms (key=" ++ h.stringDebug key ++ ")"))

end Executors
end Ruuter
