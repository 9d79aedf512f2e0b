import Ruuter.Engine
import Ruuter.Router

/-! Self-calls (`src/http_client/mod.rs`): a request of an `http` step to one of the listeners
of the process itself is answered by the router, in a run of its own, and not over the
network. -/
namespace Ruuter

/-- The parts of a parsed URL that are read. -/
structure Url where
  scheme : String
  host : Option String
  port : Option UInt16 := none
  path : String
  query : Option String := none
  queryPairs : List (String × String) := []

/-- `HttpClient`, as far as it decides about a self-call, with the functions it takes from
libraries. -/
structure HttpClient where
  offline : Bool := false
  outboundDisabled : Bool := false
  selfOrigins : List (String × UInt16) := []
  hasRouterHandle : Bool := true
  parseUrl : String → Except String Url := fun _ => .error "relative URL without a base"
  lowercase : String → String := Text.toAsciiLowercase

/-- `SelfOrigins::matches`. -/
def HttpClient.isSelf (client : HttpClient) (url : String) : Bool :=
  match client.parseUrl url with
  | .error _ => false
  | .ok parsed =>
    if parsed.scheme ≠ "http" ∧ parsed.scheme ≠ "https" then false
    else
      match parsed.host with
      | none => false
      | some host =>
        let port := parsed.port.getD (if parsed.scheme = "http" then 80 else 443)
        client.selfOrigins.contains (host,port)

def offlineStubResponse : HttpResponse where
  status := 0
  body := some (.object
    [("error",.string "offline")
    ,("message",.string "outbound HTTP is disabled by RUUTER_OFFLINE (h2ck.me v1 T-14)")])
  error := some "offline"

section Dispatch
variable (h : Host) (client : HttpClient) (r : Router) (run : Runner) (tree : Tree)

/-- `DslRouter::execute_by_url`: the first segment of the path is the project. -/
def executeByUrl (method urlPath : String) (query : StringMap Json) (headers : StringMap String)
    (body : StringMap Json) : M HttpResponse := do
  let (project,rest) := (urlPath.toList.dropWhile (· == '/')).span (· ≠ '/')
  let result ← executeDsl r run tree (String.ofList project) method (String.ofList rest.tail) body
    query headers "self-call"
  pure { status := result.status, body := result.value, headers := result.headers }

/-- What `execute_dsl` is handed of a request. -/
structure Incoming where
  params : StringMap Json
  headers : StringMap String
  body : StringMap Json

/-- What a self-call hands over. The query of the URL is merged with the explicit one, and a body
that is no object is wrapped. -/
def selfIncoming (parsed : Url) (request : Outbound) : Incoming where
  params := (request.query.getD ∅).entries.foldl (fun map entry => map.insert entry.1 entry.2)
    (parsed.queryPairs.foldl (fun map pair => map.insert pair.1 (.string pair.2)) ∅)
  headers := (request.headers.getD ∅).entries.foldl (fun map entry =>
    map.insert (client.lowercase entry.1) (jsonToString h entry.2)) ∅
  body :=
    match request.body with
    | some (.object members) => ofMembers members
    | some other => (∅ : StringMap Json).insert "_body" other
    | none => ∅

/-- `self_call_dispatch`. -/
def selfCallDispatch (request : Outbound) : M HttpResponse :=
  match client.parseUrl request.url with
  | .error e => Eff.throw (.httpRequest ("invalid self-call url '" ++ request.url ++ "': " ++ e))
  | .ok parsed =>
    let incoming := selfIncoming h client parsed request
    executeByUrl r run tree request.method parsed.path incoming.params incoming.headers incoming.body

theorem selfCallDispatch_eq {h : Host} {client : HttpClient} {r : Router} {run : Runner} {tree : Tree}
    (given : client.parseUrl request.url = .ok parsed) :
    selfCallDispatch h client r run tree request =
      let incoming := selfIncoming h client parsed request
      executeByUrl r run tree request.method parsed.path incoming.params incoming.headers incoming.body := by
  unfold selfCallDispatch
  rw [given]

/-- `request_with_ct`: every transport but the self-call is the host's. -/
def requestWithCt (request : Outbound) : M (Except RuuterError HttpResponse) := do
  emit (.requested request)
  if client.offline then pure (.ok offlineStubResponse)
  else if client.outboundDisabled then
    pure (.error (.httpRequest "outbound HTTP is disabled by internal_requests.disabled"))
  else if client.isSelf request.url ∧ client.hasRouterHandle then
    Eff.attempt (selfCallDispatch h client r run tree request)
  else consult (h.request · request)

end Dispatch

/-- A step whose requests go through the client: one of an `http` step, or all of a `parallel_http`
step. -/
def routedStep (h : Host) (send : Outbound → M (Except RuuterError HttpResponse))
    (sendAll : List Outbound → M (List (Except RuuterError HttpResponse))) (engine : Engine)
    (step : DslStep) (ctx : Ctx) : M StepResult := do
  emit (.dispatched step)
  match step with
  | .http s => executeHttpWith h engine ctx send s
  | .parallelHttp s => executeParallelHttpWith h ctx sendAll s
  | other => executeSingleStepImpl h engine other ctx

/-- With the transport of the engine a step is the step of the engine. -/
theorem routedStep_sendRequest (engine : Engine) :
    routedStep h (sendRequest h) (Eff.collect (sendRequest h)) engine = executeSingleStep h engine := by
  funext step ctx
  cases step <;> rfl

/-- The engine with its self-calls: the runs they start are part of the run. -/
def routed (h : Host) (client : HttpClient) (r : Router) (tree : Tree) : (fuel : Nat) → Engine
  | 0 => engine h 0
  | fuel + 1 =>
    let nested := routed h client r tree fuel
    let send := requestWithCt h client r nested.run tree
    let step := routedStep h send (Eff.collect send) nested
    { run := fun dsl ctx => RunEnd.result <$> runToEnd h step dsl ctx
      step }

theorem isSelf_external {client : HttpClient} (external : client.selfOrigins = []) (url : String) :
    client.isSelf url = false := by
  unfold HttpClient.isSelf
  split
  · rfl
  · split
    · rfl
    · split
      · rfl
      · simp [external]

/-- Without self-origins nothing is called in-process, and the engine is the one above. -/
theorem routed_eq_engine (online : client.offline = false) (enabled : client.outboundDisabled = false)
    (external : client.selfOrigins = []) : routed h client r tree fuel = engine h fuel := by
  have direct : ∀ run, requestWithCt h client r run tree = sendRequest h := by
    intro run
    funext request
    simp [requestWithCt,sendRequest,online,enabled,isSelf_external external]
  induction fuel with
  | zero => rfl
  | succ fuel ih => simp only [routed,engine,ih,direct,routedStep_sendRequest]

end Ruuter
