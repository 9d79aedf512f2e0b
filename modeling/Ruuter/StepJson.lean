import Ruuter.JsonText
import Ruuter.Step

/-! The steps as `serde_json::to_string` writes them: the fields in their order, absent options left
out, the base fields last. -/
namespace Ruuter

/-- A field with `skip_serializing_if = "Option::is_none"`. -/
def optionalMember (name : String) (value : Option α) (write : α → Json) : List (String × Json) :=
  (value.map fun held => (name,write held)).toList

/-- An optional field that is always written. -/
def nullableJson (write : α → Json) : Option α → Json
  | some held => write held
  | none => .null

def jsonOfU64 (n : UInt64) : Json := .number (.posInt n)

def jsonOfU32 (n : UInt32) : Json := jsonOfU64 n.toUInt64

def jsonOfU16 (n : UInt16) : Json := jsonOfU64 n.toUInt64

def jsonOfStrings (items : List String) : Json := .array (items.map .string)

def jsonOfMap (map : StringMap Json) : Json := .object (map.entries.map fun entry => (entry.1,entry.2))

def BaseStepFields.members (base : BaseStepFields) : List (String × Json) :=
  optionalMember "skip" base.skip .bool ++ optionalMember "sleep" base.sleep jsonOfU64 ++
    optionalMember "max_recursions" base.maxRecursions jsonOfU32 ++ optionalMember "reload_dsl" base.reloadDsl .bool

/-- The members of a step: its action, where it goes on and its base fields. -/
def stepObject (action : List (String × Json)) (next : Option String) (base : BaseStepFields) : Json :=
  .object (action ++ (optionalMember "next" next .string ++ base.members))

def HttpArgs.toJson (args : HttpArgs) : Json :=
  .object (("url",.string args.url) :: (optionalMember "body" args.body id ++ optionalMember "query" args.query id ++
    optionalMember "headers" args.headers id ++ optionalMember "content_type" args.contentType .string))

def HttpMockArgs.toJson (args : HttpMockArgs) : Json :=
  .object (optionalMember "request" args.request id ++
    (("response",args.response) :: optionalMember "status" args.status jsonOfU16))

def Condition.toJson (c : Condition) : Json := .object [("condition",.string c.condition),("next",.string c.next)]

def StateOp.toJson : StateOp → Json
  | .get key into => .object [("get",.object [("key",.string key),("into",.string into)])]
  | .set key value => .object [("set",.object [("key",.string key),("value",value)])]
  | .delete key => .object [("delete",.object [("key",.string key)])]

def AggregateMode.text : AggregateMode → String
  | .collectOk => "collect_ok"
  | .collectAll => "collect_all"
  | .firstN => "first_n"

def RemainingPeersAfter.text : RemainingPeersAfter → String
  | .cancel => "cancel"
  | .drainBg => "drain_bg"

def EarlyExitOn.toJson (exit : EarlyExitOn) : Json :=
  .object (optionalMember "status_range" exit.statusRange (fun range => .array [jsonOfU16 range.1,jsonOfU16 range.2]) ++
    optionalMember "body_predicate" exit.bodyPredicate .string)

def ParallelHttpBody.toJson (b : ParallelHttpBody) : Json :=
  .object ([("peers",.string b.peers),("call",.string b.call),("args",b.args.toJson)] ++
    optionalMember "timeout" b.timeout jsonOfU64 ++ optionalMember "max_concurrency" b.maxConcurrency jsonOfU32 ++
    [("aggregate",.string b.aggregate.text)] ++ optionalMember "first_n" b.firstN jsonOfU32 ++
    optionalMember "early_exit_on" b.earlyExitOn EarlyExitOn.toJson ++
    optionalMember "remaining_peers_after" b.remainingPeersAfter (fun after => .string after.text) ++
    [("result",.string b.result)])

def BroadcastWhere.toJson (b : BroadcastWhere) : Json :=
  .object (("tag",b.tag) :: (optionalMember "equals" b.equals id ++ optionalMember "contains" b.contains id))

def WsSendArgs.toJson (args : WsSendArgs) : Json :=
  .object (optionalMember "to" args.to id ++ (("payload",args.payload) ::
    (optionalMember "broadcast_prefix" args.broadcastPrefix .string ++
      optionalMember "broadcast_where" args.broadcastWhere BroadcastWhere.toJson)))

/-- A `BTreeMap`: the members stand in key order. -/
def WsTagArgs.toJson (args : WsTagArgs) : Json :=
  .object [("set",.object (args.set.entries.foldr (fun entry members => Json.insertMember entry.1 entry.2 members) []))]

section Declaration

def DslField.toJson : DslField → Json
  | ⟨field,fieldType,required,format,description,default,items⟩ =>
    .object (("field",.string field) :: (optionalMember "type" fieldType .string ++ optionalMember "required" required .bool ++
      optionalMember "format" format .string ++ optionalMember "description" description .string ++
        optionalMember "default" default id ++
      match items with
      | some item => [("items",item.toJson)]
      | none => []))

def jsonOfFields (fields : List DslField) : Json := .array (fields.map DslField.toJson)

def RequiredOneOf.toJson (r : RequiredOneOf) : Json :=
  let groups (lists : List (List String)) : Json := .array (lists.map jsonOfStrings)
  .object (optionalMember "body" r.body groups ++ optionalMember "headers" r.headers groups ++
    optionalMember "params" r.params groups)

def Allowlist.toJson (a : Allowlist) : Json :=
  .object (optionalMember "body" a.body jsonOfFields ++ optionalMember "headers" a.headers jsonOfFields ++
    optionalMember "params" a.params jsonOfFields ++
      optionalMember "required_one_of" a.requiredOneOf RequiredOneOf.toJson)

def ProxyDeclaration.toJson (p : ProxyDeclaration) : Json :=
  .object [("upstream",.string p.upstream),("preserve_headers",.bool p.preserveHeaders),
    ("max_body_bytes",jsonOfU64 p.maxBodyBytes),("max_in_flight",nullableJson jsonOfU32 p.maxInFlight),
    ("inbound_progress_timeout_ms",nullableJson jsonOfU64 p.inboundProgressTimeoutMs),
    ("allowed_encodings",jsonOfStrings p.allowedEncodings),
    ("request_timeout_ms",nullableJson jsonOfU64 p.requestTimeoutMs)]

def DeclarationStep.toJson (d : DeclarationStep) : Json :=
  .object ([("version",nullableJson .string d.version),("description",nullableJson .string d.description),
      ("namespace",nullableJson .string d.namespace),("allowed_body",nullableJson jsonOfStrings d.allowedBody),
      ("allowed_header",nullableJson jsonOfStrings d.allowedHeader),
      ("allowed_params",nullableJson jsonOfStrings d.allowedParams)] ++
    optionalMember "allowlist" d.allowlist Allowlist.toJson ++ optionalMember "returns" d.returns jsonOfFields ++
    optionalMember "strict" d.strict .bool ++ optionalMember "additive" d.additive .bool ++
    [("override_ancestors",nullableJson .bool d.overrideAncestors)] ++
      optionalMember "proxy" d.proxy ProxyDeclaration.toJson ++
    optionalMember "internal" d.internal .bool ++ d.base.members)

end Declaration

mutual

def DslStep.toJson : DslStep → Json
  | .assign s => stepObject [("assign",jsonOfMap s.assign)] s.next s.base
  | .returnStep s => stepObject (("return",s.returnValue) :: (optionalMember "status" s.status id ++
      optionalMember "headers" s.headers id ++ optionalMember "wrapper" s.wrapper .bool)) s.next s.base
  | .http s => .object ([("call",.string s.call),("args",s.args.toJson)] ++ optionalMember "result" s.result .string ++
      optionalMember "next" s.next .string ++ optionalMember "error" s.error .string ++
        optionalMember "timeout" s.timeout jsonOfU64 ++
      s.base.members)
  | .httpMock s => stepObject ([("call",.string s.call),("args",s.args.toJson)] ++ optionalMember "result" s.result .string)
      s.next s.base
  | .switch s => stepObject [("switch",.array (s.switch.map Condition.toJson))] s.next s.base
  | .log s => stepObject [("log",s.log)] s.next s.base
  | .template s => stepObject (("template",.string s.template) :: (optionalMember "result" s.result .string ++
      optionalMember "request_type" s.requestType .string ++ optionalMember "body" s.body id ++
        optionalMember "query" s.query id ++
      optionalMember "headers" s.headers id)) s.next s.base
  | .state s => stepObject [("state",s.state.toJson)] s.next s.base
  | .iterate ⟨⟨list,itemVar,body,collect,into,maxItems⟩,next,base⟩ => stepObject
      [("iterate",.object ([("over",list),("as",.string itemVar),("do",.array (bodyJson body))] ++
        optionalMember "collect" collect id ++ optionalMember "into" into .string ++
          optionalMember "max_items" maxItems jsonOfU64))]
      next base
  | .parallelHttp s => stepObject [("parallel_http",s.parallelHttp.toJson)] s.next s.base
  | .detach ⟨⟨body,timeoutMs⟩,next,base⟩ => stepObject
      [("detach",.object (("do",.array (bodyJson body)) :: optionalMember "timeout_ms" timeoutMs jsonOfU64))] next base
  | .wsSend s => stepObject [("ws_send",s.wsSend.toJson)] s.next s.base
  | .wsTag s => stepObject [("ws_tag",s.wsTag.toJson)] s.next s.base
  | .singleFlight ⟨⟨key,ttlMs,body,result⟩,next,base⟩ => stepObject
      [("single_flight",.object ([("key",.string key),("ttl_ms",jsonOfU64 ttlMs),("do",.array (bodyJson body))] ++
        optionalMember "result" result .string))] next base
  | .declaration s => s.toJson

def bodyJson : List DslStep → List Json
  | [] => []
  | step :: rest => step.toJson :: bodyJson rest

end

theorem toJson_object (step : DslStep) : ∃ members, step.toJson = .object members := by
  cases step with
  | iterate s =>
    obtain ⟨⟨list,itemVar,body,collect,into,most⟩,next,base⟩ := s
    rw [DslStep.toJson]
    exact ⟨_,rfl⟩
  | detach s =>
    obtain ⟨⟨body,timeout⟩,next,base⟩ := s
    rw [DslStep.toJson]
    exact ⟨_,rfl⟩
  | singleFlight s =>
    obtain ⟨⟨text,ttl,body,result⟩,next,base⟩ := s
    rw [DslStep.toJson]
    exact ⟨_,rfl⟩
  | _ =>
    rw [DslStep.toJson]
    exact ⟨_,rfl⟩

theorem bodyJson_eq (steps : List DslStep) : bodyJson steps = steps.map DslStep.toJson := by
  induction steps with
  | nil => rfl
  | cons step rest ih => rw [bodyJson,ih,List.map_cons]

end Ruuter
