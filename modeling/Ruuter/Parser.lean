import Ruuter.Context
import Ruuter.Lib.Assoc
import Ruuter.Yaml

/-! The DSL parser (`src/dsl/parser.rs`) with the deserialisers of `src/steps/mod.rs` and
`src/dsl/mod.rs`. A top-level step goes through the dispatcher `parseStep`; the steps of a
`do:` block are read by `dslStep`, which tries the variants in the order of the enum. -/
namespace Ruuter

/-- What the parser takes from its libraries: YAML, the printing of values and floats, and
the texts of deserialisation errors. -/
structure Serde extends FloatText where
  yaml : String → Except String (StringMap Yaml)
  debug : Yaml → String
  keyError : Yaml → String
  readError : Json → String

section Records

open Layout Reader

def baseStepFields : Layout BaseStepFields :=
  build BaseStepFields.mk
    |>.ap (defaultedNone "skip" bool)
    |>.ap (defaultedNone "sleep" u64)
    |>.ap (defaultedNone "max_recursions" u32 ["maxRecursions"])
    |>.ap (defaultedNone "reload_dsl" bool ["reload_dsls","reloadDsl","reloadDsls"])

def assignStep : Layout AssignStep :=
  build AssignStep.mk
    |>.ap (required "assign" mapping)
    |>.ap (optional "next" string)
    |>.ap baseStepFields

def returnStep : Layout ReturnStep :=
  build ReturnStep.mk
    |>.ap (required "return" any)
    |>.ap (optional "status" any)
    |>.ap (optional "headers" any)
    |>.ap (optional "wrapper" bool)
    |>.ap (optional "next" string)
    |>.ap baseStepFields

def httpArgs : Layout HttpArgs :=
  build HttpArgs.mk
    |>.ap (required "url" string)
    |>.ap (optional "body" any)
    |>.ap (optional "query" any)
    |>.ap (optional "headers" any)
    |>.ap (optional "content_type" string)

def httpStep : Layout HttpStep :=
  build HttpStep.mk
    |>.ap (required "call" string)
    |>.ap (required "args" (struct httpArgs))
    |>.ap (optional "result" string)
    |>.ap (optional "next" string)
    |>.ap (optional "error" string)
    |>.ap (optional "timeout" u64)
    |>.ap baseStepFields

def httpMockArgs : Layout HttpMockArgs :=
  build HttpMockArgs.mk
    |>.ap (defaultedNone "request" any)
    |>.ap (required "response" any)
    |>.ap (defaultedNone "status" u16)

def httpMockStep : Layout HttpMockStep :=
  build HttpMockStep.mk
    |>.ap (required "call" string)
    |>.ap (required "args" (struct httpMockArgs))
    |>.ap (optional "result" string)
    |>.ap (optional "next" string)
    |>.ap baseStepFields

def condition : Layout Condition :=
  build Condition.mk
    |>.ap (required "condition" string)
    |>.ap (required "next" string)

def switchStep : Layout SwitchStep :=
  build SwitchStep.mk
    |>.ap (required "switch" (list (struct condition)))
    |>.ap (optional "next" string)
    |>.ap baseStepFields

def logStep : Layout LogStep :=
  build LogStep.mk
    |>.ap (required "log" any)
    |>.ap (optional "next" string)
    |>.ap baseStepFields

def templateStep : Layout TemplateStep :=
  build TemplateStep.mk
    |>.ap (required "template" string)
    |>.ap (optional "result" string)
    |>.ap (optional "request_type" string)
    |>.ap (optional "body" any)
    |>.ap (optional "query" any)
    |>.ap (optional "headers" any)
    |>.ap (optional "next" string)
    |>.ap baseStepFields

/-- The operations of `state:`. -/
def stateOps : List (String × Layout StateOp) :=
  let delete := build StateOp.delete |>.ap (required "key" string)
  [("get",build StateOp.get |>.ap (required "key" string) |>.ap (required "into" string)),
   ("set",build StateOp.set |>.ap (required "key" string) |>.ap (required "value" any)),
   ("delete",delete),
   ("remove",delete)]

/-- The fields of an operation are an object. Read from buffered content, as the steps of a
`do:` block are, they may also be a sequence. -/
def stateOp (buffered : Bool) : Reader StateOp :=
  tagged (stateOps.map fun op => (op.1,if buffered then struct op.2 else flat op.2))

def stateStep (buffered : Bool) : Layout StateStep :=
  build StateStep.mk
    |>.ap (required "state" (stateOp buffered))
    |>.ap (optional "next" string)
    |>.ap baseStepFields

def iterateBody (step : Reader σ) : Layout (IterateBody σ) :=
  build IterateBody.mk
    |>.ap (required "over" any)
    |>.ap (required "as" string)
    |>.ap (required "do" (list step))
    |>.ap (optional "collect" any)
    |>.ap (optional "into" string)
    |>.ap (optional "max_items" u64)

def iterateStep (step : Reader σ) : Layout (IterateStep σ) :=
  build IterateStep.mk
    |>.ap (required "iterate" (struct (iterateBody step)))
    |>.ap (optional "next" string)
    |>.ap baseStepFields

def aggregateMode : Reader AggregateMode :=
  tag [("collect_ok",.collectOk),("collect_all",.collectAll),("first_n",.firstN)]

def remainingPeersAfter : Reader RemainingPeersAfter := tag [("cancel",.cancel),("drain_bg",.drainBg)]

def earlyExitOn : Layout EarlyExitOn :=
  build EarlyExitOn.mk
    |>.ap (defaultedNone "status_range" (pair u16))
    |>.ap (defaultedNone "body_predicate" string)

def parallelHttpBody : Layout ParallelHttpBody :=
  build ParallelHttpBody.mk
    |>.ap (required "peers" string)
    |>.ap (defaulted "call" "http.get" string)
    |>.ap (required "args" (struct httpArgs))
    |>.ap (optional "timeout" u64)
    |>.ap (defaultedNone "max_concurrency" u32)
    |>.ap (required "aggregate" aggregateMode)
    |>.ap (defaultedNone "first_n" u32)
    |>.ap (defaultedNone "early_exit_on" (struct earlyExitOn))
    |>.ap (defaultedNone "remaining_peers_after" remainingPeersAfter)
    |>.ap (required "result" string)

def parallelHttpStep : Layout ParallelHttpStep :=
  build ParallelHttpStep.mk
    |>.ap (required "parallel_http" (struct parallelHttpBody))
    |>.ap (optional "next" string)
    |>.ap baseStepFields

def detachBody (step : Reader σ) : Layout (DetachBody σ) :=
  build DetachBody.mk
    |>.ap (required "do" (list step))
    |>.ap (defaultedNone "timeout_ms" u64)

def detachStep (step : Reader σ) : Layout (DetachStep σ) :=
  build DetachStep.mk
    |>.ap (required "detach" (struct (detachBody step)))
    |>.ap (optional "next" string)
    |>.ap baseStepFields

def broadcastWhere : Layout BroadcastWhere :=
  build BroadcastWhere.mk
    |>.ap (required "tag" any)
    |>.ap (defaultedNone "equals" any)
    |>.ap (defaultedNone "contains" any)

def wsSendArgs : Layout WsSendArgs :=
  build WsSendArgs.mk
    |>.ap (optional "to" any)
    |>.ap (required "payload" any)
    |>.ap (optional "broadcast_prefix" string)
    |>.ap (optional "broadcast_where" (struct broadcastWhere))

def wsSendStep : Layout WsSendStep :=
  build WsSendStep.mk
    |>.ap (required "ws_send" (struct wsSendArgs))
    |>.ap (optional "next" string)
    |>.ap baseStepFields

def wsTagArgs : Layout WsTagArgs :=
  build WsTagArgs.mk
    |>.ap (required "set" mapping)

def wsTagStep : Layout WsTagStep :=
  build WsTagStep.mk
    |>.ap (required "ws_tag" (struct wsTagArgs))
    |>.ap (optional "next" string)
    |>.ap baseStepFields

def singleFlightBody (step : Reader σ) : Layout (SingleFlightBody σ) :=
  build SingleFlightBody.mk
    |>.ap (required "key" string)
    |>.ap (required "ttl_ms" u64)
    |>.ap (required "do" (list step))
    |>.ap (optional "result" string)

def singleFlightStep (step : Reader σ) : Layout (SingleFlightStep σ) :=
  build SingleFlightStep.mk
    |>.ap (required "single_flight" (struct (singleFlightBody step)))
    |>.ap (optional "next" string)
    |>.ap baseStepFields

def dslFieldOf (items : Reader DslField) : Layout DslField :=
  build DslField.mk
    |>.ap (required "field" string)
    |>.ap (defaultedNone "type" string)
    |>.ap (defaultedNone "required" bool)
    |>.ap (defaultedNone "format" string)
    |>.ap (defaultedNone "description" string)
    |>.ap (defaultedNone "default" any)
    |>.ap (defaultedNone "items" items)

def dslField : Reader DslField := fix fun items => struct (dslFieldOf items)

def requiredOneOf : Layout RequiredOneOf :=
  build RequiredOneOf.mk
    |>.ap (defaultedNone "body" (list (list string)))
    |>.ap (defaultedNone "headers" (list (list string)) ["header"])
    |>.ap (defaultedNone "params" (list (list string)))

def allowlist : Layout Allowlist :=
  build Allowlist.mk
    |>.ap (defaultedNone "body" (list dslField))
    |>.ap (defaultedNone "headers" (list dslField) ["header"])
    |>.ap (defaultedNone "params" (list dslField))
    |>.ap (defaultedNone "required_one_of" (struct requiredOneOf))

def proxyDeclaration : Layout ProxyDeclaration :=
  build ProxyDeclaration.mk
    |>.ap (required "upstream" string)
    |>.ap (defaulted "preserve_headers" true bool)
    |>.ap (required "max_body_bytes" u64)
    |>.ap (defaulted "max_in_flight" (some 32) (nullable u32))
    |>.ap (defaulted "inbound_progress_timeout_ms" (some 10000) (nullable u64))
    |>.ap (defaulted "allowed_encodings" ["identity"] (list string))
    |>.ap (defaulted "request_timeout_ms" (some 60000) (nullable u64))

def declarationStep : Layout DeclarationStep :=
  build DeclarationStep.mk
    |>.ap (optional "version" string)
    |>.ap (optional "description" string)
    |>.ap (optional "namespace" string)
    |>.ap (optional "allowed_body" (list string))
    |>.ap (optional "allowed_header" (list string))
    |>.ap (optional "allowed_params" (list string))
    |>.ap (optional "allowlist" (struct allowlist))
    |>.ap (defaultedNone "returns" (list dslField))
    |>.ap (defaultedNone "strict" bool)
    |>.ap (defaultedNone "additive" bool)
    |>.ap (optional "override_ancestors" bool)
    |>.ap (defaultedNone "proxy" (struct proxyDeclaration))
    |>.ap (defaultedNone "internal" bool)
    |>.ap baseStepFields

end Records

/-- The alternatives of `DslStep`. -/
inductive Variant
  | assign | returnStep | http | httpMock | switch | log | template | state | iterate
  | parallelHttp | detach | wsSend | wsTag | singleFlight | declaration
deriving DecidableEq

def DslStep.variant : DslStep → Variant
  | .assign _ => .assign
  | .returnStep _ => .returnStep
  | .http _ => .http
  | .httpMock _ => .httpMock
  | .switch _ => .switch
  | .log _ => .log
  | .template _ => .template
  | .state _ => .state
  | .iterate _ => .iterate
  | .parallelHttp _ => .parallelHttp
  | .detach _ => .detach
  | .wsSend _ => .wsSend
  | .wsTag _ => .wsTag
  | .singleFlight _ => .singleFlight
  | .declaration _ => .declaration

/-- The deserialiser of one variant, given the one for nested steps. -/
def Variant.reader (buffered : Bool) (step : Reader DslStep) : Variant → Reader DslStep
  | .assign => (Reader.flat assignStep).map .assign
  | .returnStep => (Reader.flat Ruuter.returnStep).map .returnStep
  | .http => (Reader.flat httpStep).map .http
  | .httpMock => (Reader.flat httpMockStep).map .httpMock
  | .switch => (Reader.flat switchStep).map .switch
  | .log => (Reader.flat logStep).map .log
  | .template => (Reader.flat templateStep).map .template
  | .state => (Reader.flat (stateStep buffered)).map .state
  | .iterate => (Reader.flat (iterateStep step)).map .iterate
  | .parallelHttp => (Reader.flat parallelHttpStep).map .parallelHttp
  | .detach => (Reader.flat (detachStep step)).map .detach
  | .wsSend => (Reader.flat wsSendStep).map .wsSend
  | .wsTag => (Reader.flat wsTagStep).map .wsTag
  | .singleFlight => (Reader.flat (singleFlightStep step)).map .singleFlight
  | .declaration => (Reader.flat declarationStep).map .declaration

/-- The variants in the order in which the untagged enum tries them. -/
def untaggedOrder : List Variant :=
  [.assign,.returnStep,.http,.httpMock,.switch,.log,.template,.state,.iterate,.parallelHttp,.detach,
   .wsSend,.wsTag,.singleFlight,.declaration]

/-- `DslStep::deserialize`: the first variant that fits. -/
def dslStep : Reader DslStep := .fix fun step => .firstOf (untaggedOrder.map (Variant.reader true step))

/-- `ACTION_STEP_KEYS`. -/
def actionStepKeys : List String :=
  ["assign","call","detach","iterate","log","parallel_http","return","single_flight","state","switch",
   "template","ws_send","ws_tag"]

/-- The keys tried after `call:`, in order. -/
def keyVariants : List (String × Variant) :=
  [("template",.template),("assign",.assign),("return",.returnStep),("switch",.switch),("log",.log),
   ("state",.state),("iterate",.iterate),("parallel_http",.parallelHttp),("detach",.detach),
   ("ws_send",.wsSend),("ws_tag",.wsTag),("single_flight",.singleFlight)]

/-- The fields that make a step without an action a declaration. -/
def declarationKeys : List String :=
  ["version","description","returns","namespace","allowed_body","allowed_header","allowed_params",
   "override_ancestors","allowlist","strict","proxy","internal"]

/-- The fields of a bare control-flow step. -/
def controlKeys : List String :=
  ["next","skip","sleep","maxRecursions","max_recursions","reloadDsl","reloadDsls","reload_dsl",
   "reload_dsls"]

/-- The variant that a step's keys name, from the keys it has, the text of `call:` and
whether it has control-flow fields only. -/
def variantHint (name : String) (keyPresent : String → Bool) (call : Option String) (bare : Bool) :
    Except RuuterError Variant :=
  let present := actionStepKeys.filter keyPresent
  let quoted (keys : List String) := keys.map fun key => "`" ++ key ++ ":`"
  if 1 < present.length then
    .error (.dslParse ("step '" ++ name ++ "' declares " ++ toString present.length ++
      " actions in one step (" ++ " and ".intercalate (quoted present) ++
      "). A DSL step must declare exactly one action (" ++ ", ".intercalate (quoted actionStepKeys) ++
      "). Move each action into its own named step and chain them with `next:`."))
  else
    match call with
    | some call =>
      if call = "declare" then .ok .declaration
      else if call = "reflect.mock" then .ok .httpMock
      else if Text.startsWith call "http." then .ok .http
      else
        .error (.dslParse ("step '" ++ name ++ "': unknown call '" ++ call ++
          "' (expected 'declare', 'reflect.mock', or 'http.<verb>')"))
    | none =>
      match keyVariants.find? fun entry => keyPresent entry.1 with
      | some entry => .ok entry.2
      | none =>
        if declarationKeys.any keyPresent || bare then .ok .declaration
        else
          .error (.dslParse ("step '" ++ name ++ "': no recognised step discriminator (expected one of " ++
            "call:, template:, assign:, return:, switch:, log:, state:, iterate:, parallel_http:, " ++
            "detach:, ws_send:, ws_tag:, single_flight:, or a declaration field)"))

/-- A check that fails with an error when its condition holds. -/
def rejectIf (p : Prop) [Decidable p] (e : ε) : Except ε Unit := if p then .error e else .ok ()

/-- The fields that only `first_n` uses. -/
def validateAggregate (fail : String → RuuterError) (body : ParallelHttpBody) : Except RuuterError Unit :=
  let unused (mode : String) : Except RuuterError Unit := do
    rejectIf (body.firstN.isSome = true)
      (fail ("first_n is only valid under aggregate=first_n (saw aggregate=" ++ mode ++
        "). Drop first_n or switch aggregate."))
    rejectIf (body.earlyExitOn.isSome = true)
      (fail "early_exit_on is only valid under aggregate=first_n")
    rejectIf (body.remainingPeersAfter.isSome = true)
      (fail "remaining_peers_after is only valid under aggregate=first_n")
  match body.aggregate with
  | .firstN =>
    rejectIf (body.firstN = none ∨ body.firstN = some 0)
      (fail "aggregate=first_n requires `first_n: <N>` with N >= 1")
  | .collectOk => unused "collect_ok"
  | .collectAll => unused "collect_all"

def validateParallelHttp (step : String) (body : ParallelHttpBody) : Except RuuterError Unit := do
  let fail (message : String) : RuuterError :=
    .dslParse ("step '" ++ step ++ "': parallel_http." ++ message)
  validateAggregate fail body
  match body.earlyExitOn.bind (·.statusRange) with
  | some (lo,hi) =>
    rejectIf (hi < lo)
      (fail ("early_exit_on.status_range [" ++ toString lo.toNat ++ ", " ++ toString hi.toNat ++
        "] must have lo <= hi"))
  | none => .ok ()
  rejectIf (body.call ∉ ["http.get","http.post","http.put","http.patch","http.delete"])
    (fail ("call unknown method '" ++ body.call ++
      "' (expected http.get / http.post / http.put / http.patch / http.delete)"))

def validateDetach (step : String) (body : DetachBody DslStep) : Except RuuterError Unit := do
  let fail (message : String) : RuuterError := .dslParse ("step '" ++ step ++ "': detach." ++ message)
  rejectIf (body.body.isEmpty = true) (fail "do must contain at least one sub-step")
  rejectIf (body.timeoutMs = some 0)
    (fail "timeout_ms must be > 0 (unset the field for no timeout)")
  rejectIf (∃ sub ∈ body.body, sub.variant = .returnStep)
    (fail ("do may not contain a `return:` sub-step — the parent response has already been sent by " ++
      "the time the detached task runs. Use a `switch:` that terminates naturally if you need early exit."))

/-- The checks that follow the deserialisation of a top-level step. -/
def validateStep (name : String) : DslStep → Except RuuterError Unit
  | .parallelHttp s => validateParallelHttp name s.parallelHttp
  | .detach s => validateDetach name s.detach
  | _ => .ok ()

def keyPresent (members : List (Yaml × Yaml)) (key : String) : Bool := (Yaml.get? members key).isSome

def strField (members : List (Yaml × Yaml)) (key : String) : Option String :=
  (Yaml.get? members key).bind Yaml.asStr?

/-- Only control-flow fields. -/
def bareControl (members : List (Yaml × Yaml)) : Bool :=
  members.all fun member => member.1.asStr?.any (controlKeys.contains ·)

def parseStep (serde : Serde) (name : String) (value : Yaml) : Except RuuterError DslStep :=
  match value with
  | .mapping members => do
    let hint ← variantHint name (keyPresent members) (strField members "call") (bareControl members)
    match value.toJson serde.toFloatText with
    | none => .error (.dslParse ("step '" ++ name ++ "': " ++ serde.keyError value))
    | some json =>
      match (hint.reader false dslStep).read json with
      | none => .error (.dslParse ("Failed to parse step '" ++ name ++ "': " ++ serde.readError json))
      | some step => do
        validateStep name step
        pure step
  | other =>
    .error (.dslParse ("step '" ++ name ++ "' must be a YAML mapping, got " ++ serde.debug other))

def parseSteps (serde : Serde) (yaml : StringMap Yaml) : Except RuuterError (StringMap DslStep) :=
  Assoc.traverse (parseStep serde) yaml

/-- `KNOWN_CONTENT_ENCODINGS`. -/
def knownContentEncodings : List String := ["identity","gzip","deflate","br","zstd"]

/-- Every name of a group must be a declared field. Header names compare without case. -/
def checkSection (part : String) (same : String → String → Bool)
    (groups : Option (List (List String))) (declared : Option (List DslField)) : Except String Unit :=
  let fields := (declared.getD []).map (·.field)
  match (groups.getD []).flatten.find? fun name => !fields.any (same · name) with
  | none => .ok ()
  | some name =>
    .error ("declaration.allowlist.required_one_of." ++ part ++ " references '" ++ name ++
      "' which is not declared in allowlist." ++ part ++
      " of this DSL. Resolution is local — guards do not contribute. Add '" ++ name ++
      "' to allowlist." ++ part ++ ", or drop it from required_one_of.")

def checkEncoding (encoding : String) : Except String Unit :=
  let normal := Text.toAsciiLowercase (Text.trim encoding)
  if normal = "" then
    .error ("declaration.proxy.allowed_encodings contains an empty entry; " ++
      "drop it or replace with `identity`.")
  else if normal ∈ knownContentEncodings then .ok ()
  else
    .error ("declaration.proxy.allowed_encodings: unknown encoding '" ++ encoding ++ "' (known: " ++
      ", ".intercalate knownContentEncodings ++ ").")

def validateProxy (d : DeclarationStep) (proxy : ProxyDeclaration) : Except String Unit := do
  rejectIf ((d.allowlist.bind (·.body)).isSome = true)
    ("declaration.proxy and declaration.allowlist.body are mutually exclusive. A proxy route " ++
      "forwards the body byte-identically to the upstream; declaring a body allowlist would require " ++
      "parsing the body (defeats the contract and introduces a parser attack surface). Drop " ++
      "allowlist.body — upstream validates content shape.")
  rejectIf (d.allowedBody.isSome = true)
    ("declaration.proxy and declaration.allowed_body are mutually exclusive. Drop " ++
      "allowed_body; a proxy route does not parse the body.")
  rejectIf (Text.trim proxy.upstream = "")
    "declaration.proxy.upstream must be a non-empty absolute URL."
  rejectIf (proxy.maxBodyBytes = 0) "declaration.proxy.max_body_bytes must be > 0."
  proxy.allowedEncodings.forM checkEncoding

def DeclarationStep.validatePosture (d : DeclarationStep) : Except String Unit := do
  rejectIf (d.isStrict = true ∧ d.isAdditive = true)
    ("declaration.strict and declaration.additive are mutually exclusive (strict rejects " ++
      "unknown fields; additive permits them). Pick one.")
  let structured := d.allowlist.any fun a => a.body.isSome || a.params.isSome || a.headers.isSome
  let legacy := d.allowedBody.isSome || d.allowedParams.isSome || d.allowedHeader.isSome
  rejectIf (d.isStrict = true ∧ structured = false ∧ legacy = false)
    ("declaration.strict is true but no allowlist is declared (allowlist.body / " ++
      "allowlist.params / allowlist.headers, or the legacy allowed_body / allowed_params / " ++
      "allowed_header). strict rejects fields outside the allowlist; with no allowlist every request " ++
      "trivially passes, which is almost certainly not what the operator intended. Add an allowlist, " ++
      "or drop strict.")
  match d.allowlist.bind fun a => a.requiredOneOf.map (a,·) with
  | none => .ok ()
  | some (a,groups) => do
    let ignoreCase (field name : String) := Text.toAsciiLowercase field == Text.toAsciiLowercase name
    checkSection "body" (· == ·) groups.body a.body
    checkSection "params" (· == ·) groups.params a.params
    checkSection "headers" ignoreCase groups.headers a.headers
  match d.proxy with
  | none => .ok ()
  | some proxy => validateProxy d proxy

namespace Interpolate

/-- A non-empty run of characters up to a closing delimiter. -/
def delimited (close : Char) (text : List Char) : Option (List Char × List Char) :=
  match text.span (· ≠ close) with
  | (key@(_ :: _),_ :: rest) => some (key,rest)
  | _ => none

/-- A reference to a constant at the front of a text: its key and what follows. -/
def reference : List Char → Option (List Char × List Char)
  | '[' :: '#' :: rest => delimited ']' rest
  | '#' :: '\x7b' :: rest => delimited '\x7d' rest
  | _ => none

/-- Replace the references from left to right. The bound is the length of the text. -/
def substituteFrom (lookup : String → Option String) : Nat → List Char → List Char
  | 0, _ | _, [] => []
  | n + 1, c :: text =>
    match reference (c :: text) with
    | none => c :: substituteFrom lookup n text
    | some (key,rest) =>
      let literal := (c :: text).take (text.length + 1 - rest.length)
      ((lookup (String.ofList key)).map String.toList).getD literal ++ substituteFrom lookup n rest

/-- Replace every `[#NAME]` and `#{NAME}`. A reference without a constant stays as it is. -/
def substitute (input : String) (lookup : String → Option String) : String :=
  String.ofList (substituteFrom lookup input.length input.toList)

end Interpolate

structure DslParser where
  serde : Serde
  constants : StringMap String := ∅

namespace DslParser

def replaceConstants (parser : DslParser) (content : String) : String :=
  Interpolate.substitute content parser.constants.lookup

/-- A proxy route may not declare action steps. -/
def checkProxyRoute (dsl : Dsl) : Except RuuterError Unit :=
  let actions := dsl.steps.entries.filterMap fun entry =>
    if entry.2.variant = .declaration then none else some ("`" ++ entry.1 ++ "`")
  if actions = [] then .ok ()
  else
    .error (.dslParse ("declaration.proxy routes may not declare action steps (found " ++
      ", ".intercalate actions ++ "). The body is forwarded to the upstream before StepEngine runs; " ++
      "any action step would be unreachable. Move the forwarding logic to a non-proxy route if you " ++
      "need a step pipeline."))

def validateDsl (dsl : Dsl) : Except RuuterError Unit :=
  match dsl.declaration with
  | none => .ok ()
  | some decl =>
    match decl.validatePosture with
    | .error message => .error (.dslParse ("declaration: " ++ message))
    | .ok () => if decl.proxy.isSome then checkProxyRoute dsl else .ok ()

def parseContent (parser : DslParser) (content : String) : Except RuuterError Dsl :=
  match parser.serde.yaml (parser.replaceConstants content) with
  | .error message => .error (.yaml message)
  | .ok yaml => do
    let steps ← parseSteps parser.serde yaml
    let dsl : Dsl := { steps }
    validateDsl dsl
    pure dsl

end DslParser
end Ruuter
