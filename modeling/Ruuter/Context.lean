import Ruuter.GuardAudit
import Ruuter.Lib.Effect
import Ruuter.Script
import Ruuter.State

/-! What a step runs in: the execution context (`src/context/mod.rs`), the state that steps
change, and the surroundings (`Host`) that answer for everything outside the engine. -/
namespace Ruuter

/-- `RuuterError`, with one constructor more for a run that exceeds the nesting bound. -/
inductive RuuterError
  | dslParse (message : String)
  | dslExecution (step message : String)
  | scriptEvaluation (message : String)
  | http (message : String)
  | httpRequest (message : String)
  | io (message : String)
  | yaml (message : String)
  | json (message : String)
  | config (message : String)
  | invalidStep (message : String)
  | guardFailed (message : String)
  | fileNotFound (message : String)
  | timeout (message : String)
  | badRequest (message : String)
  | stepContext (step stepType project : String) (source : RuuterError)
  | outOfFuel
deriving DecidableEq

/-- The `Display` text of an error. -/
def RuuterError.text : RuuterError → String
  | .dslParse message => "DSL parsing error: " ++ message
  | .dslExecution step message => "DSL execution error in step '" ++ step ++ "': " ++ message
  | .scriptEvaluation message => "Script evaluation error: " ++ message
  | .http message => "HTTP error: " ++ message
  | .httpRequest message => "HTTP request rejected: " ++ message
  | .io message => "IO error: " ++ message
  | .yaml message => "YAML error: " ++ message
  | .json message => "JSON error: " ++ message
  | .config message => "Configuration error: " ++ message
  | .invalidStep message => "Invalid DSL step: " ++ message
  | .guardFailed message => "Guard failed: " ++ message
  | .fileNotFound message => "File not found: " ++ message
  | .timeout message => "Timeout: " ++ message
  | .badRequest message => "Bad request: " ++ message
  | .stepContext step stepType project _ =>
    "step '" ++ step ++ "' (" ++ stepType ++ ") in project '" ++ project ++ "' failed"
  | .outOfFuel => "nesting bound exceeded"

/-- The fields of an `ExecutionContext` that no step changes. -/
structure Ctx where
  requestBody : StringMap Json := ∅
  requestQuery : StringMap Json := ∅
  requestHeaders : StringMap String := ∅
  requestOrigin : String := ""
  project : String := ""
  connectionId : Option String := none
  traceparent : Option String := none

structure HttpResponse where
  status : UInt16
  body : Option Json := none
  headers : StringMap String := ∅
  error : Option String := none

/-- The arguments of `HttpClient::request_with_ct`. -/
structure Outbound where
  method : String
  url : String
  body : Option Json
  query : Option (StringMap Json)
  headers : Option (StringMap Json)
  timeout : Option UInt64
  contentType : Option String

/-- The predicate of a `broadcast_where`, resolved. -/
inductive WhereOp
  | equals (want : String)
  | contains (needle : String)

/-- The connections a WebSocket payload goes to. -/
inductive Audience
  | connection (id : String)
  | withPrefix (idPrefix : String)
  | tagged (tag : String) (op : WhereOp)

/-- What a run does, in the order in which it does it. -/
inductive Event
  | entered (dsl : Dsl)
  | dispatched (step : DslStep)
  | evaluated (value : Json)
  | script (source : String)
  | slept (ms : UInt64)
  | reloaded
  | requested (request : Outbound)
  | sent (audience : Audience) (payload : Json)
  | tagged (id : String) (tags : List (String × String))
  | published (key : String) (outcome : Except String (Option Json))

/-- The state of a run: the variables of the current context, the guard stack, the shared
store, the events so far, and a clock that numbers the questions to the host. -/
structure St where
  vars : StringMap Json := ∅
  guardStack : List String := []
  store : StateStore := {}
  trace : List Event := []
  clock : Nat := 0

/-- `DefaultHttpDslConfig`. -/
structure DefaultHttpDslConfig where
  dsl : String
  requestType : String := "POST"
  project : String := "framework"
  body : StringMap Json := ∅
  query : StringMap Json := ∅
  headers : StringMap String := ∅

/-- What `DetachRegistry::try_spawn` answers. A spawned block may be cut off after a number
of its sub-steps. -/
inductive DetachOutcome
  | noRegistry
  | overflow (cap : UInt32)
  | spawned (cutOff : Option Nat)

/-- The role `Registry::claim` gives a `single_flight` caller, and how a follower's wait ends. -/
inductive FlightRole
  | leader
  | received (outcome : Except String (Option Json))
  | closed
  | timedOut

/-- The configuration and the surroundings of the engine. Every answer may depend on the
moment it is asked for, so one host covers every behaviour of scripts, upstreams, other
requests and reloads. -/
structure Host where
  maxIterations : UInt32 := 10000
  statusAllowList : List UInt16 := []
  defaultExceptionDsl : Option DefaultHttpDslConfig := none
  guardsMode : GuardMode := .stack
  loadDsls : Nat → Option HttpDsls := fun _ => none
  loadGuards : Nat → GuardDsls := fun _ => ∅
  bindings : Nat → Ctx → StringMap Json → Option String := fun _ _ _ => none
  js : Nat → String → Ctx → StringMap Json → Except String Json := fun _ _ _ _ => .ok .null
  request : Nat → Outbound → Except RuuterError HttpResponse := fun _ _ => .ok { status := 200 }
  detach : Nat → DetachOutcome := fun _ => .spawned none
  flight : Nat → String → FlightRole := fun _ _ => .leader
  finish : Nat → Nat → List Nat := fun _ count => List.range count
  wsSend : Nat → String → Json → Except RuuterError Unit := fun _ _ _ => .ok ()
  wsSetTags : Nat → String → List (String × String) → Except RuuterError Unit := fun _ _ _ => .ok ()
  interfere : Nat → StateStore → StateStore := fun _ store => store
  jsonText : Json → String := fun _ => ""
  jsonDebug : Json → String := fun _ => ""
  stringDebug : String → String := fun text => text
  uppercase : String → String := fun text => String.ofList (text.toList.flatMap toUppercase)

abbrev M := Eff St RuuterError

def emit (event : Event) : M Unit := Eff.modify fun s => { s with trace := s.trace ++ [event] }

/-- Ask the host. -/
def consult (answer : Nat → α) : M α := fun s => (.ok (answer s.clock),{ s with clock := s.clock + 1 })

def ofExcept : Except RuuterError α → M α
  | .ok a => pure a
  | .error e => Eff.throw e

def setVariable (key : String) (value : Json) : M Unit :=
  Eff.modify fun s => { s with vars := s.vars.insert key value }

/-- Another request may have changed the shared store since it was last read. -/
def interference (h : Host) : M Unit := fun s =>
  (.ok (),{ s with store := h.interfere s.clock s.store, clock := s.clock + 1 })

def maxGuardDepth : Nat := 32

def isGuardOnStack (s : St) (key : String) : Bool := s.guardStack.contains key

/-- The two refusals of `push_guard`. -/
def checkGuard (key : String) : M Unit := fun s =>
  let stack := ", ".intercalate s.guardStack
  if maxGuardDepth ≤ s.guardStack.length then
    (.error (.dslExecution "guard"
      ("guard nesting exceeded MAX_GUARD_DEPTH (32); stack: [" ++ stack ++
        "]. Likely a `template:` step whose target's guard chain re-enters via more than 32 " ++
        "intermediate guards. See issue #79.")),s)
  else if isGuardOnStack s key then
    (.error (.dslExecution "guard"
      ("guard cycle detected: '" ++ key ++ "' is already on the execution stack [" ++ stack ++
        "]. A `template:` step whose target is covered by the same guard would recurse forever " ++
        "(issue #79).")),s)
  else (.ok (),s)

/-- A computation with a guard key pushed: the frame is popped on every outcome. -/
def inFrame (key : String) (m : M α) : M α :=
  Eff.bracket (fun s => { s with guardStack := s.guardStack ++ [key] })
    (fun _ t => { t with guardStack := t.guardStack.dropLast }) m

/-- A child context with its own variables and the guard stack of its parent. -/
def inChild (m : M α) : M α :=
  Eff.bracket (fun s => { s with vars := ∅ }) (fun s t => { t with vars := s.vars }) m

/-- A context with its own variables and its own guard stack. -/
def isolated (vars : StringMap Json) (m : M α) : M α :=
  Eff.bracket (fun s => { s with vars, guardStack := [] })
    (fun s t => { t with vars := s.vars, guardStack := s.guardStack }) m

/-- The trace id of a traceparent with four parts. -/
def traceIdFrom (traceparent : String) : Option String :=
  match Text.split traceparent '-' with
  | _ :: traceId :: _ :: _ :: _ => if traceId.utf8ByteSize = 32 then some traceId else none
  | _ => none

def Ctx.traceId (ctx : Ctx) : Option String := ctx.traceparent.bind traceIdFrom

def eqIgnoreAsciiCase (left right : String) : Bool :=
  left.toList.map Char.toLower == right.toList.map Char.toLower

/-- `maybe_suppress_optional_null`. -/
def suppressOptionalNull (value : Json) (expr : String) : Json :=
  if value.isNull && (Text.contains expr ".optional." || Text.contains expr ".optional_") then
    .string ""
  else value

section Evaluate
variable (h : Host) (ctx : Ctx)

def executeJs (source : String) : M Json := do
  emit (.script source)
  let s ← Eff.get
  match ← consult (h.js · source ctx s.vars) with
  | .ok value => pure value
  | .error message => Eff.throw (.scriptEvaluation message)

/-- What a value becomes inside a mixed string. -/
def interpolated : Json → String
  | .string text => text
  | .null => ""
  | other => h.jsonText other

/-- Mixed strings: every segment runs, the text around it is copied, and the first error is
reported at the end. -/
def interpolate (text : String) : List Segment → (cursor : Nat) → (out : String) →
    Option RuuterError → M Json
  | [], cursor, out, failed =>
    match failed with
    | some e => Eff.throw e
    | none => pure (.string (out ++ Text.slice text cursor text.utf8ByteSize))
  | segment :: rest, cursor, out, failed => do
    let out := out ++ Text.slice text cursor segment.start
    match ← Eff.attempt (executeJs h ctx segment.inner) with
    | .ok value =>
      let value := suppressOptionalNull value segment.inner
      interpolate text rest segment.stop (out ++ interpolated h value) failed
    | .error e =>
      interpolate text rest segment.stop (out ++ Text.slice text segment.start segment.stop)
        (failed.or (some e))

def evaluateString (text : String) : M Json :=
  match wholeExpression text with
  | some inner => do
    let value ← executeJs h ctx inner
    pure (suppressOptionalNull value inner)
  | none => interpolate h ctx text (findScriptSegments text) 0 "" none

mutual

def evaluateWith : Json → M Json
  | .string text => evaluateString h ctx text
  | .array items => do
    let items ← evaluateItems items
    pure (.array items)
  | .object members => do
    let members ← evaluateMembers members
    pure (.object members)
  | .null => pure .null
  | .bool b => pure (.bool b)
  | .number n => pure (.number n)

def evaluateItems : List Json → M (List Json)
  | [] => pure []
  | item :: rest => do
    let item ← evaluateWith item
    let rest ← evaluateItems rest
    pure (item :: rest)

def evaluateMembers : List (String × Json) → M (List (String × Json))
  | [] => pure []
  | (key,value) :: rest => do
    let value ← evaluateWith value
    let rest ← evaluateMembers rest
    pure ((key,value) :: rest)

end

/-- `ScriptEngine::evaluate`. A value without expressions comes back as it is. -/
def evaluate (value : Json) : M Json := do
  emit (.evaluated value)
  if hasExpressions value then
    let s ← Eff.get
    match ← consult (h.bindings · ctx s.vars) with
    | some message => Eff.throw (.scriptEvaluation message)
    | none => evaluateWith h ctx value
  else pure value

end Evaluate
end Ruuter
