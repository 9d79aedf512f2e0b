import Ruuter.Declaration
import Ruuter.GuardAudit
import Ruuter.Yaml

/-! The OpenAPI generator (`src/openapi.rs`): the parameters and the request body of an
operation, built from the declaration of its DSL, and what such an operation marks as required. -/
namespace Ruuter

namespace Json

/-- A `json!` object, or a map filled by insertion. -/
def ofEntries (entries : List (String × Json)) : Json := .object (Yaml.toObject [] entries)

def member? : Json → String → Option Json
  | .object members, key => members.lookup key
  | _, _ => none

theorem lookup_toObject (held entries : List (String × Json)) (key : String) :
    (Yaml.toObject held entries).lookup key = (entries.reverse.lookup key).or (held.lookup key) := by
  induction entries generalizing held with
  | nil => rfl
  | cons entry rest ih =>
    obtain ⟨name,value⟩ := entry
    have step : Yaml.toObject held ((name,value) :: rest) =
        Yaml.toObject (insertMember name value held) rest := rfl
    rw [step,ih,lookup_insertMember,List.reverse_cons,List.lookup_append]
    cases rest.reverse.lookup key with
    | some later => rfl
    | none =>
      by_cases same : key = name
      · simp [same]
      · simp [same,List.lookup_cons,beq_false_of_ne same]

/-- The last entry of a key holds. -/
theorem member?_ofEntries (entries : List (String × Json)) (key : String) :
    (ofEntries entries).member? key = entries.reverse.lookup key := by
  have opened : (ofEntries entries).member? key = (Yaml.toObject [] entries).lookup key := rfl
  rw [opened,lookup_toObject]
  cases entries.reverse.lookup key <;> rfl

end Json

namespace OpenApi

def fieldSchema : DslField → Json
  | ⟨_,fieldType,_,format,description,default,items⟩ =>
    let type := fieldType.getD "string"
    let schema := match items with
      | some item => fieldSchema item
      | none => .ofEntries []
    .ofEntries (("type",.string type) :: ((format.map fun text => ("format",Json.string text)).toList ++
      (description.map fun text => ("description",Json.string text)).toList ++
      (default.map fun value => ("default",value)).toList ++
      if type = "array" then [("items",schema)] else []))

def requiredNames (fields : List DslField) : List String :=
  (fields.filter fun f => f.required.getD false).map (·.field)

def buildObjectSchema (fields : List DslField) : Json :=
  let props := Json.ofEntries (fields.map fun f => (f.field,fieldSchema f))
  let required := (requiredNames fields).map Json.string
  .ofEntries ([("type",.string "object"),("properties",props)] ++
    if required.isEmpty then [] else [("required",.array required)])

/-- Where a declared name is looked up. -/
inductive Part
  | body | query | header
deriving DecidableEq

def buildNamedParameter (name location : String) (f : DslField) : Json :=
  .ofEntries ([("name",.string name),("in",.string location),("required",.bool (f.required.getD false))] ++
    (f.description.map fun text => ("description",Json.string text)).toList ++
    [("schema",fieldSchema f)])

/-- A name of a flat list. -/
def flatParameter (location name : String) : Json :=
  .ofEntries [("name",.string name),("in",.string location),("required",.bool false),
    ("schema",.ofEntries [("type",.string "string")])]

/-- The parameters of one location: the structured form is preferred. -/
def locationParameters (location : String) (structured : Option (List DslField))
    (flat : Option (List String)) : List Json :=
  match structured with
  | some fields => fields.map fun f => buildNamedParameter f.field location f
  | none => (flat.getD []).map (flatParameter location)

def buildParameters (decl : Option DeclarationStep) : Option Json :=
  decl.bind fun decl =>
    let params := locationParameters "query" decl.structuredParams decl.allowedParams ++
      locationParameters "header" decl.structuredHeaders decl.allowedHeader
    if params.isEmpty then none else some (.array params)

def bodyBearing (method : String) : Bool :=
  ["POST","PUT","PATCH"].contains (String.ofList (method.toList.flatMap toUppercase))

/-- The schema of a request body: the structured form is preferred unless it is empty. -/
def bodySchema (decl : DeclarationStep) : Option Json :=
  let flat := decl.allowedBody.bind fun allowed =>
    if allowed.isEmpty then none
    else
      some (.ofEntries [("type",.string "object"),
        ("properties",.ofEntries (allowed.map fun name =>
          (name,Json.ofEntries [("type",.string "string")])))])
  match decl.structuredBody with
  | some fields => if fields.isEmpty then flat else some (buildObjectSchema fields)
  | none => flat

def buildRequestBody (method : String) (decl : Option DeclarationStep) : Option Json :=
  if bodyBearing method then
    (decl.bind bodySchema).map fun schema =>
      .ofEntries [("required",.bool true),
        ("content",.ofEntries [("application/json",.ofEntries [("schema",schema)])])]
  else none

/-- The request body of a pass-through route. -/
def opaqueBody : Json :=
  .ofEntries [("required",.bool false),
    ("content",.ofEntries [("application/octet-stream",
      .ofEntries [("schema",.ofEntries [("type",.string "string"),("format",.string "binary")])])])]

/-- The inputs of `build_operation`: its `parameters` and its `requestBody`. -/
def buildOperation (method : String) (decl : Option DeclarationStep) : Json :=
  let body :=
    if (decl.bind (·.proxy)).isSome then some opaqueBody else buildRequestBody method decl
  .ofEntries (((buildParameters decl).map fun params => ("parameters",params)).toList ++
    (body.map fun body => ("requestBody",body)).toList)

/-- The schema of the JSON body of an operation. -/
def jsonSchema (operation : Json) : Option Json :=
  (((operation.member? "requestBody").bind (·.member? "content")).bind
    (·.member? "application/json")).bind (·.member? "schema")

/-- An operation marks a parameter of a location as required. -/
def MarksParameter (operation : Json) (location name : String) : Prop :=
  ∃ items param, operation.member? "parameters" = some (.array items) ∧ param ∈ items ∧
    param.member? "name" = some (.string name) ∧ param.member? "in" = some (.string location) ∧
    param.member? "required" = some (.bool true)

/-- What an operation marks as required. -/
def Marks (operation : Json) : Part → String → Prop
  | .body, name => ∃ items, (jsonSchema operation).bind (·.member? "required") = some (.array items) ∧
      Json.string name ∈ items
  | .query, name => MarksParameter operation "query" name
  | .header, name => MarksParameter operation "header" name

section Operation

variable {method : String} {decl : DeclarationStep}

/-- The members of an object of two optional entries. -/
theorem member?_optional (first second : Option Json) {one two : String} (apart : one ≠ two) :
    let built := Json.ofEntries ((first.map fun value => (one,value)).toList ++
      (second.map fun value => (two,value)).toList)
    built.member? one = first ∧ built.member? two = second := by
  intro built
  simp only [built,Json.member?_ofEntries]
  cases first <;> cases second <;>
    simp [List.lookup_cons,beq_false_of_ne apart,beq_false_of_ne apart.symm]

theorem operation_parameters :
    (buildOperation method (some decl)).member? "parameters" = buildParameters (some decl) :=
  (member?_optional _ _ (by decide)).1

theorem operation_requestBody : (buildOperation method (some decl)).member? "requestBody" =
    if decl.proxy.isSome then some opaqueBody else buildRequestBody method (some decl) :=
  (member?_optional _ _ (by decide)).2

theorem parameter_members (name location : String) (f : DslField) :
    (buildNamedParameter name location f).member? "name" = some (.string name) ∧
      (buildNamedParameter name location f).member? "in" = some (.string location) ∧
      (buildNamedParameter name location f).member? "required" = some (.bool (f.required.getD false)) := by
  simp only [buildNamedParameter,Json.member?_ofEntries]
  cases f.description <;> simp [List.lookup_cons]

theorem flatParameter_required (location name : String) :
    (flatParameter location name).member? "required" = some (.bool false) := by
  simp only [flatParameter,Json.member?_ofEntries]
  simp [List.lookup_cons]

/-- The parameters of one location that are marked. -/
theorem marked_location {location wanted : String} {structured : Option (List DslField)} :
    (∃ param ∈ locationParameters location structured flat, param.member? "name" = some (.string name) ∧
      param.member? "in" = some (.string wanted) ∧ param.member? "required" = some (.bool true)) ↔
      location = wanted ∧ name ∈ requiredNames (structured.getD []) := by
  unfold locationParameters requiredNames
  cases structured with
  | none =>
    constructor
    · rintro ⟨param,member,_,_,required⟩
      obtain ⟨_,_,rfl⟩ := List.mem_map.mp member
      rw [flatParameter_required] at required
      cases required
    · rintro ⟨_,member⟩
      cases member
  | some fields =>
    constructor
    · rintro ⟨param,member,named,inside,required⟩
      obtain ⟨f,declared,rfl⟩ := List.mem_map.mp member
      obtain ⟨hasName,hasPlace,flag⟩ := parameter_members f.field location f
      cases hasName.symm.trans named
      cases hasPlace.symm.trans inside
      have set := Json.bool.inj (Option.some.inj (flag.symm.trans required))
      exact ⟨rfl,List.mem_map.mpr ⟨f,List.mem_filter.mpr ⟨declared,set⟩,rfl⟩⟩
    · rintro ⟨rfl,member⟩
      obtain ⟨f,chosen,rfl⟩ := List.mem_map.mp member
      obtain ⟨declared,set⟩ := List.mem_filter.mp chosen
      obtain ⟨hasName,hasPlace,flag⟩ := parameter_members f.field location f
      exact ⟨_,List.mem_map.mpr ⟨f,declared,rfl⟩,hasName,hasPlace,by rw [flag,set]⟩

theorem marksParameter_iff : MarksParameter (buildOperation method (some decl)) location name ↔
    ∃ param ∈ locationParameters "query" decl.structuredParams decl.allowedParams ++
      locationParameters "header" decl.structuredHeaders decl.allowedHeader,
      param.member? "name" = some (.string name) ∧ param.member? "in" = some (.string location) ∧
        param.member? "required" = some (.bool true) := by
  unfold MarksParameter
  rw [operation_parameters]
  simp only [buildParameters,Option.bind_some]
  constructor
  · rintro ⟨items,param,given,member,rest⟩
    split at given
    · cases given
    · cases given
      exact ⟨param,member,rest⟩
  · rintro ⟨param,member,rest⟩
    have filled := List.isEmpty_eq_false_iff.mpr (List.ne_nil_of_mem member)
    exact ⟨_,param,by rw [filled]; rfl,member,rest⟩

/-- The query parameters that an operation marks. -/
theorem marks_query_iff : Marks (buildOperation method (some decl)) .query name ↔
    name ∈ requiredNames (decl.structuredParams.getD []) := by
  refine marksParameter_iff.trans ?_
  simp only [List.mem_append,or_and_right,exists_or,marked_location]
  simp

theorem marks_header_iff : Marks (buildOperation method (some decl)) .header name ↔
    name ∈ requiredNames (decl.structuredHeaders.getD []) := by
  refine marksParameter_iff.trans ?_
  simp only [List.mem_append,or_and_right,exists_or,marked_location]
  simp

theorem objectSchema_required (fields : List DslField) :
    (buildObjectSchema fields).member? "required" =
      if requiredNames fields = [] then none else some (.array ((requiredNames fields).map Json.string)) := by
  simp only [buildObjectSchema,Json.member?_ofEntries]
  cases requiredNames fields <;> simp [List.lookup_cons]

/-- Only the structured form has a list of required fields. -/
theorem bodySchema_required : (bodySchema decl).bind (·.member? "required") =
    if requiredNames (decl.structuredBody.getD []) = [] then none
    else some (.array ((requiredNames (decl.structuredBody.getD [])).map Json.string)) := by
  have flat : ∀ props, (Json.ofEntries [("type",.string "object"),("properties",props)]).member? "required" =
      none := by
    intro props
    simp [Json.member?_ofEntries,List.lookup_cons]
  have unlisted : (decl.allowedBody.bind fun allowed =>
      if allowed.isEmpty = true then none
      else some (Json.ofEntries [("type",.string "object"),
        ("properties",.ofEntries (allowed.map fun name =>
          (name,Json.ofEntries [("type",.string "string")])))])).bind (·.member? "required") = none := by
    cases decl.allowedBody with
    | none => rfl
    | some allowed =>
      simp only [Option.bind_some]
      split
      · rfl
      · exact flat _
  unfold bodySchema
  simp only
  cases decl.structuredBody with
  | none => exact unlisted
  | some fields =>
    cases fields with
    | nil => exact unlisted
    | cons f rest => exact objectSchema_required (f :: rest)

theorem jsonSchema_operation : jsonSchema (buildOperation method (some decl)) =
    if decl.proxy.isSome then none else if bodyBearing method then bodySchema decl else none := by
  unfold jsonSchema
  rw [operation_requestBody]
  split
  · simp [opaqueBody,Json.member?_ofEntries,List.lookup_cons]
  · unfold buildRequestBody
    rw [Option.bind_some]
    split
    · cases bodySchema decl <;> simp [Json.member?_ofEntries]
    · rfl

/-- The body fields that an operation marks. -/
theorem marks_body_iff : Marks (buildOperation method (some decl)) .body name ↔
    decl.proxy = none ∧ bodyBearing method = true ∧
      name ∈ requiredNames (decl.structuredBody.getD []) := by
  unfold Marks
  rw [jsonSchema_operation]
  cases decl.proxy with
  | some proxy => simp
  | none =>
    cases bodyBearing method with
    | false => simp
    | true =>
      simp only [Option.isSome_none,Bool.false_eq_true,if_false,if_true,true_and]
      rw [bodySchema_required]
      cases requiredNames (decl.structuredBody.getD []) with
      | nil => simp
      | cons first rest => simp

end Operation

end OpenApi
end Ruuter
