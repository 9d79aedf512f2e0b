import Ruuter.Context

/-! Declaration contracts (`src/router/mod.rs`): what a declaration demands of a request, for
guards (`enforceGuardDeclaration`) and for the DSL behind them (`applyDeclaration`). -/
namespace Ruuter

/-- The maps of a request that a declaration is checked against. -/
structure RequestView where
  body : StringMap Json := ∅
  query : StringMap Json := ∅
  headers : StringMap String := ∅

def Ctx.view (ctx : Ctx) : RequestView where
  body := ctx.requestBody
  query := ctx.requestQuery
  headers := ctx.requestHeaders

/-- `ExecutionContext::replace_request_view`. -/
def Ctx.replaceRequestView (ctx : Ctx) (view : RequestView) : Ctx :=
  { ctx with
    requestBody := view.body
    requestQuery := view.query
    requestHeaders := view.headers }

def filterStrKeyed (map : StringMap α) (allowed : List String) : StringMap α where
  entries := map.entries.filter fun entry => allowed.contains entry.1
  nodupKeys := map.nodupKeys.sublist List.filter_sublist

def rejectUnknown (keys allowed : List String) (part : String) : Except RuuterError Unit :=
  match keys.find? (!allowed.contains ·) with
  | some key => .error (.badRequest ("Unexpected field in " ++ part ++ ": " ++ key))
  | none => .ok ()

def requireFields (map : StringMap Json) (names : List String) : Except RuuterError Unit :=
  match names.find? fun name => !decide (name ∈ map) with
  | some name => .error (.badRequest ("Field missing: " ++ name))
  | none => .ok ()

/-- The flat list requires all its names, the structured one those marked `required`. -/
def requiredBodyFieldNames (decl : DeclarationStep) (allow : List String) : List String :=
  if decl.allowedBody.isSome then allow
  else
    match decl.structuredBody with
    | some fields => (fields.filter fun f => f.required.getD false).map (·.field)
    | none => allow

def hasFieldType (declared : String) (value : Json) : Bool :=
  match declared, value with
  | "string", .string _ => true
  | "string", _ => false
  | "integer", .number (.float q) => q.den = 1
  | "integer", .number _ => true
  | "integer", _ => false
  | "number", .number _ => true
  | "number", _ => false
  | "boolean", .bool _ => true
  | "boolean", _ => false
  | "array", .array _ => true
  | "array", _ => false
  | "object", .object _ => true
  | "object", _ => false
  | _, _ => true

/-- Fields without a declared type, absent fields and null fields pass. -/
def checkFieldTypes (body : StringMap Json) (part : String) : List DslField → Except RuuterError Unit
  | [] => .ok ()
  | field :: rest =>
    match field.fieldType, body.lookup field.field with
    | some declared, some value =>
      if value.isNull || hasFieldType declared value then checkFieldTypes body part rest
      else
        .error (.badRequest ("Field type mismatch in " ++ part ++ ": " ++ field.field ++
          " expected " ++ declared ++ ", got " ++ value.kind))
    | _, _ => checkFieldTypes body part rest

def checkOneOfGroups (groups : Option (List (List String))) (part : String)
    (present : String → Bool) : Except RuuterError Unit :=
  match (groups.getD []).find? fun group => !group.any present with
  | some group =>
    .error (.badRequest ("Missing required_one_of in " ++ part ++ ": at least one of [" ++
      ", ".intercalate group ++ "] must be present"))
  | none => .ok ()

def enforceRequiredOneOf (decl : DeclarationStep) (view : RequestView) : Except RuuterError Unit :=
  match decl.allowlist.bind (·.requiredOneOf) with
  | none => .ok ()
  | some oneOf => do
    checkOneOfGroups oneOf.body "body" fun name => name ∈ view.body
    checkOneOfGroups oneOf.params "params" fun name => name ∈ view.query
    checkOneOfGroups oneOf.headers "headers" fun name => name ∈ view.headers

/-- Presence and type checks only: a guard does not reshape the request. -/
def enforceGuardDeclaration (decl : DeclarationStep) (view : RequestView) (method : String) :
    Except RuuterError Unit := do
  match decl.effectiveAllowedBody with
  | none => pure ()
  | some allow =>
    if method = "POST" then requireFields view.body (requiredBodyFieldNames decl allow)
    match decl.structuredBody with
    | none => pure ()
    | some fields => checkFieldTypes view.body "body" fields
  match decl.effectiveAllowedParams, decl.effectiveAllowedBody with
  | some _, some allow =>
    if method = "GET" then requireFields view.query (requiredBodyFieldNames decl allow)
  | _, _ => pure ()
  enforceRequiredOneOf decl view

/-- What happens to keys outside an allowlist: refused when strict, kept when additive,
else dropped. -/
def restrict (decl : DeclarationStep) (map : StringMap α) (allow : List String) (part : String) :
    Except RuuterError (StringMap α) :=
  if decl.isStrict then (rejectUnknown map.keys allow part).map fun _ => map
  else if decl.isAdditive then .ok map
  else .ok (filterStrKeyed map allow)

/-- The declaration of the DSL behind the guards, with the view it leaves. -/
def applyDeclaration (decl : DeclarationStep) (view : RequestView) (method traceparent : String) :
    Except RuuterError RequestView := do
  let body ←
    match decl.effectiveAllowedBody with
    | none => pure view.body
    | some allow => do
      let body ← restrict decl view.body allow "body"
      if method = "POST" then requireFields body (requiredBodyFieldNames decl allow)
      match decl.structuredBody with
      | none => pure ()
      | some fields => checkFieldTypes body "body" fields
      pure body
  enforceRequiredOneOf decl { view with body }
  let query ←
    match decl.effectiveAllowedParams with
    | none => pure view.query
    | some allow => do
      -- The injected `pathParams` is no client field.
      let kept ← restrict decl (view.query.erase "pathParams") allow "params"
      let query :=
        match view.query.lookup "pathParams" with
        | some saved => kept.insert "pathParams" saved
        | none => kept
      match decl.effectiveAllowedBody with
      | some allowBody =>
        if method = "GET" then requireFields query (requiredBodyFieldNames decl allowBody)
      | none => pure ()
      pure query
  let headers ←
    match decl.effectiveAllowedHeader with
    | none => pure view.headers
    | some allow => do
      let kept ←
        if decl.isStrict then restrict decl view.headers (allow ++ ["traceparent"]) "headers"
        else restrict decl view.headers allow "headers"
      pure (if "traceparent" ∈ kept then kept else kept.insert "traceparent" traceparent)
  pure { body, query, headers }

/-- The contract of a guard: its declaration, when it has one, accepts the request. -/
def guardContract (guard : Dsl) (view : RequestView) (method : String) : Except RuuterError Unit :=
  match guard.declaration with
  | some decl => enforceGuardDeclaration decl view method
  | none => .ok ()

end Ruuter
