import Mathlib.Data.List.AList
import Ruuter.Json

/-! The step language: the records of `src/steps/mod.rs` and the declaration of
`src/dsl/mod.rs`, field for field. A body that nests steps is parametrised by the step type. -/
namespace Ruuter

/-- A map with distinct string keys. The entry order is the iteration order. -/
abbrev StringMap (α : Type) := AList fun _ : String => α

structure BaseStepFields where
  skip : Option Bool := none
  sleep : Option UInt64 := none
  maxRecursions : Option UInt32 := none
  reloadDsl : Option Bool := none
deriving DecidableEq

structure AssignStep where
  assign : StringMap Json
  next : Option String := none
  base : BaseStepFields := {}

structure ReturnStep where
  returnValue : Json
  status : Option Json := none
  headers : Option Json := none
  wrapper : Option Bool := none
  next : Option String := none
  base : BaseStepFields := {}

structure HttpArgs where
  url : String
  body : Option Json := none
  query : Option Json := none
  headers : Option Json := none
  contentType : Option String := none

structure HttpStep where
  call : String
  args : HttpArgs
  result : Option String := none
  next : Option String := none
  error : Option String := none
  timeout : Option UInt64 := none
  base : BaseStepFields := {}

structure HttpMockArgs where
  request : Option Json := none
  response : Json
  status : Option UInt16 := none

structure HttpMockStep where
  call : String
  args : HttpMockArgs
  result : Option String := none
  next : Option String := none
  base : BaseStepFields := {}

structure Condition where
  condition : String
  next : String

structure SwitchStep where
  switch : List Condition
  next : Option String := none
  base : BaseStepFields := {}

structure LogStep where
  log : Json
  next : Option String := none
  base : BaseStepFields := {}

structure TemplateStep where
  template : String
  result : Option String := none
  requestType : Option String := none
  body : Option Json := none
  query : Option Json := none
  headers : Option Json := none
  next : Option String := none
  base : BaseStepFields := {}

inductive StateOp
  | get (key into : String)
  | set (key : String) (value : Json)
  | delete (key : String)

structure StateStep where
  state : StateOp
  next : Option String := none
  base : BaseStepFields := {}

structure IterateBody (σ : Type) where
  «over» : Json
  itemVar : String
  body : List σ
  collect : Option Json := none
  into : Option String := none
  maxItems : Option UInt64 := none

structure IterateStep (σ : Type) where
  iterate : IterateBody σ
  next : Option String := none
  base : BaseStepFields := {}

inductive AggregateMode
  | collectOk | collectAll | firstN
deriving DecidableEq

structure EarlyExitOn where
  statusRange : Option (UInt16 × UInt16) := none
  bodyPredicate : Option String := none

inductive RemainingPeersAfter
  | cancel | drainBg
deriving DecidableEq

structure ParallelHttpBody where
  peers : String
  call : String := "http.get"
  args : HttpArgs
  timeout : Option UInt64 := none
  maxConcurrency : Option UInt32 := none
  aggregate : AggregateMode
  firstN : Option UInt32 := none
  earlyExitOn : Option EarlyExitOn := none
  remainingPeersAfter : Option RemainingPeersAfter := none
  result : String

structure ParallelHttpStep where
  parallelHttp : ParallelHttpBody
  next : Option String := none
  base : BaseStepFields := {}

structure DetachBody (σ : Type) where
  body : List σ
  timeoutMs : Option UInt64 := none

structure DetachStep (σ : Type) where
  detach : DetachBody σ
  next : Option String := none
  base : BaseStepFields := {}

structure BroadcastWhere where
  tag : Json
  equals : Option Json := none
  contains : Option Json := none

structure WsSendArgs where
  «to» : Option Json := none
  payload : Json
  broadcastPrefix : Option String := none
  broadcastWhere : Option BroadcastWhere := none

structure WsSendStep where
  wsSend : WsSendArgs
  next : Option String := none
  base : BaseStepFields := {}

structure WsTagArgs where
  set : StringMap Json

structure WsTagStep where
  wsTag : WsTagArgs
  next : Option String := none
  base : BaseStepFields := {}

structure SingleFlightBody (σ : Type) where
  key : String
  ttlMs : UInt64
  body : List σ
  result : Option String := none

structure SingleFlightStep (σ : Type) where
  singleFlight : SingleFlightBody σ
  next : Option String := none
  base : BaseStepFields := {}

/-- Per-field metadata of an allowlist entry or a response schema. -/
structure DslField where
  field : String
  fieldType : Option String := none
  required : Option Bool := none
  format : Option String := none
  description : Option String := none
  default : Option Json := none
  items : Option DslField := none

structure RequiredOneOf where
  body : Option (List (List String)) := none
  headers : Option (List (List String)) := none
  params : Option (List (List String)) := none

structure Allowlist where
  body : Option (List DslField) := none
  headers : Option (List DslField) := none
  params : Option (List DslField) := none
  requiredOneOf : Option RequiredOneOf := none

structure ProxyDeclaration where
  upstream : String
  preserveHeaders : Bool := true
  maxBodyBytes : UInt64
  maxInFlight : Option UInt32 := some 32
  inboundProgressTimeoutMs : Option UInt64 := some 10000
  allowedEncodings : List String := ["identity"]
  requestTimeoutMs : Option UInt64 := some 60000

structure DeclarationStep where
  version : Option String := none
  description : Option String := none
  «namespace» : Option String := none
  allowedBody : Option (List String) := none
  allowedHeader : Option (List String) := none
  allowedParams : Option (List String) := none
  allowlist : Option Allowlist := none
  returns : Option (List DslField) := none
  strict : Option Bool := none
  additive : Option Bool := none
  overrideAncestors : Option Bool := none
  proxy : Option ProxyDeclaration := none
  internal : Option Bool := none
  base : BaseStepFields := {}

inductive DslStep
  | assign (s : AssignStep)
  | returnStep (s : ReturnStep)
  | http (s : HttpStep)
  | httpMock (s : HttpMockStep)
  | switch (s : SwitchStep)
  | log (s : LogStep)
  | template (s : TemplateStep)
  | state (s : StateStep)
  | iterate (s : IterateStep DslStep)
  | parallelHttp (s : ParallelHttpStep)
  | detach (s : DetachStep DslStep)
  | wsSend (s : WsSendStep)
  | wsTag (s : WsTagStep)
  | singleFlight (s : SingleFlightStep DslStep)
  | declaration (s : DeclarationStep)

namespace DslStep

def base : DslStep → BaseStepFields
  | .assign s => s.base
  | .returnStep s => s.base
  | .http s => s.base
  | .httpMock s => s.base
  | .switch s => s.base
  | .log s => s.base
  | .template s => s.base
  | .state s => s.base
  | .iterate s => s.base
  | .parallelHttp s => s.base
  | .detach s => s.base
  | .wsSend s => s.base
  | .wsTag s => s.base
  | .singleFlight s => s.base
  | .declaration s => s.base

/-- The step's own `next:`. A declaration has none. -/
def explicitNext : DslStep → Option String
  | .assign s => s.next
  | .returnStep s => s.next
  | .http s => s.next
  | .httpMock s => s.next
  | .switch s => s.next
  | .log s => s.next
  | .template s => s.next
  | .state s => s.next
  | .iterate s => s.next
  | .parallelHttp s => s.next
  | .detach s => s.next
  | .wsSend s => s.next
  | .wsTag s => s.next
  | .singleFlight s => s.next
  | .declaration _ => none

end DslStep

/-- A loaded DSL. `declaration` is what `Dsl::new` stores beside the steps. -/
structure Dsl where
  steps : StringMap DslStep

namespace Dsl

def declaration (dsl : Dsl) : Option DeclarationStep :=
  dsl.steps.entries.findSome? fun entry =>
    match entry.2 with
    | .declaration decl => some decl
    | _ => none

def getStep (dsl : Dsl) (name : String) : Option DslStep := dsl.steps.lookup name

def stepNames (dsl : Dsl) : List String := dsl.steps.keys

def effectiveInternal (dsl : Dsl) (defaultInternal : Bool) : Bool :=
  (dsl.declaration.bind (·.internal)).getD defaultInternal

end Dsl

namespace DeclarationStep

/-- The flat legacy list wins over the structured allowlist section. -/
private def effective (flat : Option (List String)) (structured : Option (List DslField)) :
    Option (List String) :=
  flat.or (structured.map fun fields => fields.map (·.field))

def effectiveAllowedBody (d : DeclarationStep) : Option (List String) :=
  effective d.allowedBody (d.allowlist.bind (·.body))

def effectiveAllowedHeader (d : DeclarationStep) : Option (List String) :=
  effective d.allowedHeader (d.allowlist.bind (·.headers))

def effectiveAllowedParams (d : DeclarationStep) : Option (List String) :=
  effective d.allowedParams (d.allowlist.bind (·.params))

def isStrict (d : DeclarationStep) : Bool := d.strict.getD false

def isAdditive (d : DeclarationStep) : Bool := d.additive.getD false

def structuredBody (d : DeclarationStep) : Option (List DslField) := d.allowlist.bind (·.body)

def structuredParams (d : DeclarationStep) : Option (List DslField) := d.allowlist.bind (·.params)

def structuredHeaders (d : DeclarationStep) : Option (List DslField) :=
  d.allowlist.bind (·.headers)

end DeclarationStep
end Ruuter
