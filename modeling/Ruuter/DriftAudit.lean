import Ruuter.DeclarationContract
import Ruuter.StepJson

/-! The self-audit of a DSL (`src/dsl/audit.rs`): which declared fields it takes for referenced, and
when that is the fields that the steps reference. -/
namespace Ruuter.DriftAudit
open Text

inductive Severity
  | error | warning | info
deriving DecidableEq

structure Finding where
  project : String
  dsl : String
  severity : Severity
  code : String
  message : String
  fields : List String := []

/-- The name of a section in references and in the codes of findings. -/
def sectionName : Section → String
  | .body => "body"
  | .params => "params"
  | .headers => "headers"

section Search
variable (w : FloatWriter)

/-- The steps that are searched, as JSON. Declarations are left out. -/
def scannedSteps (dsl : Dsl) : List (String × Json) :=
  dsl.steps.entries.filterMap fun entry =>
    match entry.2 with
    | .declaration _ => none
    | step => some (entry.1,step.toJson)

def renderDslForScan (dsl : Dsl) : String :=
  "\n".intercalate ((scannedSteps dsl).map fun step => step.1 ++ ":" ++ String.ofList (step.2.chars w))

def dotForm (part field : String) : String := "incoming." ++ part ++ "." ++ field

def singleForm (part field : String) : String := "incoming." ++ part ++ "['" ++ field ++ "']"

def doubleForm (part field : String) : String := "incoming." ++ part ++ "[\"" ++ field ++ "\"]"

def isFieldReferenced (rendered part field : String) (caseInsensitive : Bool) : Bool :=
  let dot := dotForm part field
  let brSingle := singleForm part field
  let brDouble := doubleForm part field
  if caseInsensitive then
    let haystack := toAsciiLowercase rendered
    contains haystack (toAsciiLowercase dot) || contains haystack (toAsciiLowercase brSingle) ||
      contains haystack (toAsciiLowercase brDouble)
  else contains rendered dot || contains rendered brSingle || contains rendered brDouble

def isNameChar (c : Char) : Bool := c.isAlphanum || c = '_' || c = '-'

/-- The loop of `extract_references`, over what is left of the text. -/
def referencesFrom (lead : List Char) : Nat → List Char → List String → List String
  | 0, _, out => out
  | _, [], out => out
  | n + 1, c :: rest, out =>
    if lead.isPrefixOf (c :: rest) then
      let after := (c :: rest).drop lead.length
      let name := after.takeWhile isNameChar
      referencesFrom lead n (after.drop name.length)
        (if name.isEmpty || out.contains (String.ofList name) then out else out ++ [String.ofList name])
    else referencesFrom lead n rest out

def extractReferences (rendered part : String) : List String :=
  referencesFrom ("incoming." ++ part ++ ".").toList rendered.toList.length rendered.toList []

end Search

/-- Header names that are never reported. -/
def safeHeaders : List String := ["authorization","traceparent","content-type","x-trace-id"]

section Findings
variable (project key : String)

/-- A finding, when there are fields to report. -/
def report (code message : String) (fields : List String) : List Finding :=
  if fields.isEmpty then [] else [⟨project,key,.warning,code,message,fields⟩]

def sectionCode (part kind : String) : String := "declaration." ++ part ++ "." ++ kind

def emitOverDeclared (rendered part : String) (declared : List String) : List Finding :=
  report project key (sectionCode part "over_declared")
    ("Field(s) declared in allowlist." ++ part ++ " are never referenced via $\x7bincoming." ++ part ++
      ".<field>\x7d in the DSL body. Clients forced to send dead data; OpenAPI advertises fields that do nothing.")
    (declared.filter fun field => !isFieldReferenced rendered part field false)

def emitOverDeclaredHeaders (rendered : String) (declared : List String) : List Finding :=
  report project key "declaration.headers.over_declared"
    ("Header(s) declared in allowlist.headers are never referenced via $\x7bincoming.headers.<name>\x7d in the " ++
      "DSL body. Framework-level headers (authorization, traceparent, content-type, x-trace-id) are excluded " ++
      "from this check.")
    (declared.filter fun field => !safeHeaders.contains (toAsciiLowercase field) &&
      !isFieldReferenced rendered "headers" field true)

def emitUnderDeclared (rendered part : String) (declared : List String) : List Finding :=
  report project key (sectionCode part "under_declared")
    ("DSL references $\x7bincoming." ++ part ++ ".<field>\x7d for field(s) not declared in allowlist." ++ part ++
      ". Under default filter the field is silently stripped before the step sees it; under `strict:` the request " ++
      "400s. OpenAPI omits the field, so clients have no reason to send it.")
    ((extractReferences rendered part).filter fun name => !declared.contains name)

def emitUnderDeclaredHeaders (rendered : String) (declared : List String) : List Finding :=
  report project key "declaration.headers.under_declared"
    ("DSL references $\x7bincoming.headers.<name>\x7d for header(s) not declared in allowlist.headers. " ++
      "Framework-level headers are excluded.")
    ((extractReferences rendered "headers").filter fun name =>
      !(declared.map toAsciiLowercase).contains (toAsciiLowercase name) && !safeHeaders.contains (toAsciiLowercase name))

/-- Category A: what a declaration lacks. -/
def completeness (decl : DeclarationStep) : List Finding :=
  let info (code message : String) (fields : List String) : Finding := ⟨project,key,.info,code,message,fields⟩
  let legacy := (decl.allowedBody.map fun _ => "allowed_body").toList ++
    (decl.allowedParams.map fun _ => "allowed_params").toList ++
      (decl.allowedHeader.map fun _ => "allowed_header").toList
  let untyped := ((decl.structuredBody.getD []).filter (·.fieldType.isNone)).map (·.field)
  (if decl.description.all fun text => (trim text).isEmpty then
    [info "declaration.description_missing"
      "No `description:`. OpenAPI operation falls back to `Auto-generated from DSL ...`." []] else []) ++
  (if decl.returns.isNone then
    [info "declaration.returns_missing"
      ("No `returns:` response schema. OpenAPI 200 response falls back to `\x7btype:object, " ++
        "additionalProperties:true\x7d`; client codegen cannot type the response.") []] else []) ++
  (if legacy.isEmpty then [] else
    [info "declaration.legacy_flat_allowlist"
      ("Using legacy flat allowlist form(s); no field-level `type:` / `required:` / `description:` metadata is " ++
        "available. Prefer structured `allowlist.*`.") legacy]) ++
  (if untyped.isEmpty then [] else
    [info "declaration.body.type_missing"
      ("One or more body fields lack a `type:` hint. OpenAPI emits generic `string`; the issue #75 type coercion " ++
        "has no referent.") untyped])

/-- Category C: required fields of the body that no step uses. -/
def requiredButUnused (rendered : String) (body : List DslField) : List Finding :=
  report project key "declaration.required_but_unused"
    ("Field(s) marked `required: true` but never referenced in the DSL body. Clients are forced to send dead data.")
    ((body.filter fun f => f.required = some true ∧ isFieldReferenced rendered "body" f.field false = false).map (·.field))

def auditDsl (w : FloatWriter) (dsl : Dsl) : List Finding :=
  match dsl.declaration with
  | none =>
    [⟨project,key,.warning,"declaration.missing",
      "No `declaration:` block. OpenAPI operation gets auto-description; no request/response schemas emitted; " ++
        "allowlist filtering is a no-op.",[]⟩]
  | some decl =>
    let rendered := renderDslForScan w dsl
    let bodyFields := (decl.structuredBody.getD []).map (·.field)
    let paramFields := (decl.structuredParams.getD []).map (·.field)
    let headerFields := (decl.structuredHeaders.getD []).map (·.field)
    completeness project key decl ++
      emitOverDeclared project key rendered "body" bodyFields ++
      emitOverDeclared project key rendered "params" paramFields ++
      emitOverDeclaredHeaders project key rendered headerFields ++
      emitUnderDeclared project key rendered "body" bodyFields ++
      emitUnderDeclared project key rendered "params" paramFields ++
      emitUnderDeclaredHeaders project key rendered headerFields ++
      requiredButUnused project key rendered (decl.structuredBody.getD []) ++
      if decl.internal.isNone then
        [⟨project,key,.info,"declaration.internal_missing",
          "No `declaration.internal` set. Resolves via operator fallback (`declarations.default_internal`; issue " ++
            "#143). Set explicitly to pin the posture or add `dsl-lint --require-internal-explicit` to CI.",[]⟩]
      else []

end Findings

section References

/-- The sections whose names are compared without case. -/
def insensitive : Section → Bool
  | .headers => true
  | .body | .params => false

/-- A text holds a pattern. -/
def Holds (part : Section) (pattern text : String) : Prop :=
  pattern.toList.map (Json.fold (insensitive part)) <:+: text.toList.map (Json.fold (insensitive part))

variable (idContinue : Char → Bool)

/-- A character that goes on with a name in a script: `IdentifierPart` of ECMAScript. Of the
characters beyond ASCII `ID_Continue` decides. -/
def isIdentifierPart (c : Char) : Bool :=
  if c.toNat < 128 then c.isAlphanum || c = '_' || c = '$'
  else c = '\u200c' || c = '\u200d' || idContinue c

/-- A text goes on with a name that stands before it, by a character or the escape of one. -/
def goesOn : List Char → Bool
  | '\\' :: 'u' :: _ => true
  | c :: _ => isIdentifierPart idContinue c
  | [] => false

/-- A text holds the name of a field behind a dot, and the name ends there. -/
def HoldsDot (part : Section) (name text : String) : Prop :=
  ∃ before held after, text.toList = before ++ held ++ after ∧
    held.map (Json.fold (insensitive part)) =
      (dotForm (sectionName part) name).toList.map (Json.fold (insensitive part)) ∧
    goesOn idContinue after = false

/-- A text references a field in one of the documented forms. -/
inductive References (part : Section) (name text : String) : Prop
  | dot (held : HoldsDot idContinue part name text)
  | single (held : Holds part (singleForm (sectionName part) name) text)
  | double (held : Holds part (doubleForm (sectionName part) name) text)

/-- The strings of the steps. -/
def stepStrings (dsl : Dsl) : List String := (scannedSteps dsl).flatMap fun step => step.2.strings

/-- All texts of the steps: their names, the keys of their objects and their strings. -/
def stepTexts (dsl : Dsl) : List String := (scannedSteps dsl).flatMap fun step => step.1 :: step.2.texts

/-- The declared fields of a section. -/
def declaredFields (decl : DeclarationStep) : Section → List DslField
  | .body => decl.structuredBody.getD []
  | .params => decl.structuredParams.getD []
  | .headers => decl.structuredHeaders.getD []

variable (w : FloatWriter)

/-- The audit takes a field for referenced. -/
def Counted (dsl : Dsl) (part : Section) (name : String) : Prop :=
  isFieldReferenced (renderDslForScan w dsl) (sectionName part) name (insensitive part) = true

/-- A finding with a code names a field. -/
def Reported (project key : String) (dsl : Dsl) (code name : String) : Prop :=
  ∃ finding ∈ auditDsl project key w dsl, finding.code = code ∧ name ∈ finding.fields

/-- A referenced field is not reported, and a field that is taken for referenced is. -/
structure SoundFor (dsl : Dsl) (part : Section) (name : String) : Prop where
  reported : (∃ s ∈ stepStrings dsl, References idContinue part name s) → ∀ project key,
    ¬ Reported w project key dsl (sectionCode (sectionName part) "over_declared") name ∧
      (part = .body → ¬ Reported w project key dsl "declaration.required_but_unused" name)
  counted : Counted w dsl part name → ∃ text ∈ stepTexts dsl, References idContinue part name text

def AuditSound (dsl : Dsl) : Prop := ∀ decl, dsl.declaration = some decl → ∀ part, ∀ field ∈ declaredFields decl part,
  SoundFor idContinue w dsl part field.field

end References

section Reports
variable {project key : String} {w : FloatWriter} {dsl : Dsl} {decl : DeclarationStep}

theorem mem_report {finding : Finding} : finding ∈ report project key code message fields ↔
    fields ≠ [] ∧ finding = ⟨project,key,.warning,code,message,fields⟩ := by
  unfold report
  cases fields <;> simp

/-- A report names its fields under its code. -/
theorem reports_iff :
    (∃ finding ∈ report project key code message fields, finding.code = wanted ∧ name ∈ finding.fields) ↔
    code = wanted ∧ name ∈ fields := by
  constructor
  · rintro ⟨finding,member,same,inside⟩
    obtain ⟨_,rfl⟩ := mem_report.mp member
    exact ⟨same,inside⟩
  · rintro ⟨same,inside⟩
    exact ⟨_,mem_report.mpr ⟨List.ne_nil_of_mem inside,rfl⟩,same,inside⟩

/-- The codes of the findings about what a declaration lacks. -/
def completenessCodes : List String := ["declaration.description_missing","declaration.returns_missing",
  "declaration.legacy_flat_allowlist","declaration.body.type_missing","declaration.internal_missing"]

theorem completeness_code {finding : Finding} (member : finding ∈ completeness project key decl) :
    finding.code ∈ completenessCodes := by
  have codes : "declaration.description_missing" ∈ completenessCodes ∧
      "declaration.returns_missing" ∈ completenessCodes ∧
      "declaration.legacy_flat_allowlist" ∈ completenessCodes ∧
        "declaration.body.type_missing" ∈ completenessCodes := by
    decide
  obtain ⟨description,returns,legacy,types⟩ := codes
  unfold completeness at member
  simp only [List.mem_append] at member
  rcases member with ((inside | inside) | inside) | inside
  · split at inside
    · rwa [List.mem_singleton.mp inside]
    · cases inside
  · split at inside
    · rwa [List.mem_singleton.mp inside]
    · cases inside
  · split at inside
    · cases inside
    · rwa [List.mem_singleton.mp inside]
  · split at inside
    · cases inside
    · rwa [List.mem_singleton.mp inside]

/-- The findings that name fields, by their code. -/
theorem reported_parts (declared : dsl.declaration = some decl) (other : code ∉ completenessCodes) :
    Reported w project key dsl code name ↔
      let rendered := renderDslForScan w dsl
      let names (part : Section) := (declaredFields decl part).map (·.field)
      let unused (part : Section) := (names part).filter fun field => !isFieldReferenced rendered
          (sectionName part) field false
      (sectionCode "body" "over_declared" = code ∧ name ∈ unused .body) ∨
      (sectionCode "params" "over_declared" = code ∧ name ∈ unused .params) ∨
      ("declaration.headers.over_declared" = code ∧ name ∈ (names .headers).filter fun field =>
        !safeHeaders.contains (toAsciiLowercase field) && !isFieldReferenced rendered "headers" field true) ∨
      (sectionCode "body" "under_declared" = code ∧ name ∈ (extractReferences rendered "body").filter fun field =>
        !(names .body).contains field) ∨
      (sectionCode "params" "under_declared" = code ∧ name ∈ (extractReferences rendered "params").filter fun field =>
        !(names .params).contains field) ∨
      ("declaration.headers.under_declared" = code ∧ name ∈ (extractReferences rendered "headers").filter fun field =>
        !((names .headers).map toAsciiLowercase).contains (toAsciiLowercase field) &&
          !safeHeaders.contains (toAsciiLowercase field)) ∨
      "declaration.required_but_unused" = code ∧ name ∈ ((declaredFields decl .body).filter fun f =>
        f.required = some true ∧ isFieldReferenced rendered "body" f.field false = false).map (·.field) := by
  have first : ¬ ∃ finding ∈ completeness project key decl, finding.code = code ∧ name ∈ finding.fields := by
    rintro ⟨finding,member,rfl,_⟩
    exact other (completeness_code member)
  unfold Reported auditDsl
  rw [declared]
  simp only [List.mem_append,or_and_right,exists_or,first,false_or,emitOverDeclared,emitOverDeclaredHeaders,emitUnderDeclared,
    emitUnderDeclaredHeaders,requiredButUnused,reports_iff,or_assoc]
  refine or_congr Iff.rfl (or_congr Iff.rfl (or_congr Iff.rfl (or_congr Iff.rfl (or_congr Iff.rfl (or_congr Iff.rfl ?_)))))
  refine or_iff_left ?_
  rintro ⟨finding,member,_,inside⟩
  split at member
  · rw [List.mem_singleton.mp member] at inside
    cases inside
  · cases member

/-- A header that the framework uses itself. -/
def Exempt (part : Section) (name : String) : Prop := part = .headers ∧ toAsciiLowercase name ∈ safeHeaders

theorem reported_overDeclared (declared : dsl.declaration = some decl) (part : Section) :
    Reported w project key dsl (sectionCode (sectionName part) "over_declared") name ↔
      name ∈ (declaredFields decl part).map (·.field) ∧ ¬ Exempt part name ∧ ¬ Counted w dsl part name := by
  have other : sectionCode (sectionName part) "over_declared" ∉ completenessCodes := by
    cases part <;> decide +kernel
  rw [reported_parts declared other]
  cases part <;> simp [sectionCode,sectionName,Counted,insensitive,Exempt]

theorem reported_unused (declared : dsl.declaration = some decl) :
    Reported w project key dsl "declaration.required_but_unused" name ↔
      ∃ field ∈ declaredFields decl .body, field.field = name ∧ field.required = some true ∧
        ¬ Counted w dsl .body name := by
  rw [reported_parts declared (by decide +kernel)]
  simp only [sectionCode,sectionName,Counted,insensitive,List.mem_map,List.mem_filter,decide_eq_true_eq]
  constructor
  · rintro (⟨code,_⟩ | ⟨code,_⟩ | ⟨code,_⟩ | ⟨code,_⟩ | ⟨code,_⟩ | ⟨code,_⟩ | ⟨_,field,⟨listed,required,unused⟩,rfl⟩)
    · simp at code
    · simp at code
    · simp at code
    · simp at code
    · simp at code
    · simp at code
    · exact ⟨field,listed,rfl,required,by rw [unused]; exact Bool.false_ne_true⟩
  · rintro ⟨field,listed,rfl,required,unused⟩
    refine .inr (.inr (.inr (.inr (.inr (.inr ⟨trivial,field,⟨listed,required,?_⟩,rfl⟩)))))
    exact Bool.eq_false_iff.mpr unused

end Reports

section Rendering
variable {w : FloatWriter} {ci : Bool} {p : List Char} {Found : String → Prop}

/-- The lines of the text that is searched. -/
def renderLines (w : FloatWriter) (steps : List (String × Json)) : String :=
  "\n".intercalate (steps.map fun step => step.1 ++ ":" ++ String.ofList (step.2.chars w))

/-- The search of one line in front of the next. -/
theorem infix_line {r : List Char} (searches : Json.Searches ci p Found) (colon : ':' ∉ 'i' :: p)
    (step : String × Json) (closes : Json.Closes r) :
    'i' :: p <:+: (step.1 ++ ":" ++ String.ofList (step.2.chars w)).toList.map (Json.fold ci) ++ r ↔
      ('i' :: p <:+: step.1.toList.map (Json.fold ci) ∨ ∃ s ∈ step.2.texts, Found s) ∨ 'i' :: p <:+: r := by
  have parts : (step.1 ++ ":" ++ String.ofList (step.2.chars w)).toList.map (Json.fold ci) ++ r =
      step.1.toList.map (Json.fold ci) ++ ':' :: ((step.2.chars w).map (Json.fold ci) ++ r) := by
    simp [Json.fold_other ci (show ':'.toNat < 65 ∨ 90 < ':'.toNat by decide)]
  rw [parts,Search.infix_append_cons colon,Json.infix_chars searches step.2 r closes,or_assoc]

/-- A pattern is found in the name of a step or in its texts. -/
theorem infix_lines (searches : Json.Searches ci p Found) (colon : ':' ∉ 'i' :: p) (steps : List (String × Json)) :
    'i' :: p <:+: (renderLines w steps).toList.map (Json.fold ci) ↔
      ∃ step ∈ steps, 'i' :: p <:+: step.1.toList.map (Json.fold ci) ∨ ∃ s ∈ step.2.texts, Found s := by
  induction steps with
  | nil => simp [renderLines]
  | cons step rest ih =>
    by_cases last : rest = []
    · subst last
      have line := infix_line (w := w) (r := []) searches colon step nofun
      rw [List.append_nil,List.infix_nil] at line
      simpa [renderLines] using line
    · have more : (renderLines w (step :: rest)).toList.map (Json.fold ci) =
          (step.1 ++ ":" ++ String.ofList (step.2.chars w)).toList.map (Json.fold ci) ++
            (['\n'].map (Json.fold ci) ++ (renderLines w rest).toList.map (Json.fold ci)) := by
        have filled : rest.map (fun step => step.1 ++ ":" ++ String.ofList (step.2.chars w)) ≠ [] := by simpa using last
        unfold renderLines
        rw [List.map_cons,String.intercalate_cons_of_ne_nil filled]
        simp
      rw [more,infix_line searches colon step (Json.closes_cons ci (by decide) _),
        Search.infix_skip (Json.literal_fresh (by decide)),ih]
      simp only [List.mem_cons,or_and_right,exists_or,exists_eq_left]

end Rendering

section Names
variable {w : FloatWriter} {dsl : Dsl} {name : String}

/-- A name without the characters that JSON escapes or uses itself. -/
def IsPlain (name : String) : Prop :=
  ∀ c ∈ name.toList, Json.isEscaped c = false ∧ c ∉ ['{','}','[',']',':',',']

theorem counted_iff_holds (part : Section) : Counted w dsl part name ↔
    Holds part (dotForm (sectionName part) name) (renderDslForScan w dsl) ∨
      Holds part (singleForm (sectionName part) name) (renderDslForScan w dsl) ∨
      Holds part (doubleForm (sectionName part) name) (renderDslForScan w dsl) := by
  have sensitive (text : String) : text.toList.map (Json.fold false) = text.toList := List.map_id _
  have lowered (text : String) :
      (toAsciiLowercase text).toList = text.toList.map (Json.fold true) := String.toList_ofList
  unfold Counted isFieldReferenced Holds
  cases part <;>
    simp [insensitive,contains_iff,sensitive,lowered,or_assoc]

/-- The characters that a pattern may have to be found in texts only. -/
def Free (c : Char) : Prop := Json.isEscaped c = false ∧ c ≠ ':'

theorem free_name (plain : IsPlain name) : ∀ c ∈ name.toList, Free c := by
  intro c member
  obtain ⟨unescaped,mark⟩ := plain c member
  exact ⟨unescaped,fun same => mark (by simp [same])⟩

theorem free_fold (ci : Bool) {x : List Char} (free : ∀ c ∈ x, Free c) : ∀ c ∈ x.map (Json.fold ci), Free c := by
  intro c member
  obtain ⟨d,inside,rfl⟩ := List.mem_map.mp member
  refine ⟨(Json.isEscaped_fold ci d).trans (free d inside).1,?_⟩
  intro same
  exact (free d inside).2 ((Json.fold_eq_iff ci (by decide)).mp same)

/-- A pattern of free characters is found in one of the texts. -/
theorem holds_rendered (part : Section) {pattern : String} {rest : List Char} (first : pattern.toList = 'i' :: rest)
    (free : ∀ c ∈ pattern.toList, Free c) :
    Holds part pattern (renderDslForScan w dsl) ↔ ∃ text ∈ stepTexts dsl, Holds part pattern text := by
  have initial :
      pattern.toList.map (Json.fold (insensitive part)) = 'i' :: rest.map (Json.fold (insensitive part)) := by
    rw [first,List.map_cons]
    congr 1
    cases part <;> decide
  have folded := free_fold (insensitive part) free
  unfold Holds
  rw [initial] at folded ⊢
  have searched := infix_lines (w := w) (Json.searches_plain (insensitive part) fun c member => (folded c member).1)
    (fun inside => (folded _ inside).2 rfl) (scannedSteps dsl)
  refine searched.trans ?_
  unfold stepTexts
  simp only [List.mem_flatMap,List.mem_cons]
  constructor
  · rintro ⟨step,member,here | ⟨text,inside,here⟩⟩
    · exact ⟨step.1,⟨step,member,.inl rfl⟩,here⟩
    · exact ⟨text,⟨step,member,.inr inside⟩,here⟩
  · rintro ⟨text,⟨step,member,rfl | inside⟩,here⟩
    · exact ⟨step,member,.inl here⟩
    · exact ⟨step,member,.inr ⟨text,inside,here⟩⟩

theorem free_append {x y : List Char} (first : ∀ c ∈ x, Free c) (second : ∀ c ∈ y, Free c) :
    ∀ c ∈ x ++ y, Free c := by
  intro c member
  rcases List.mem_append.mp member with inside | inside
  · exact first c inside
  · exact second c inside

/-- The start of all forms. -/
theorem free_lead (part : Section) : ∀ c ∈ ("incoming." ++ sectionName part).toList, Free c := by
  unfold Free
  apply forall_mem_of_all
  cases part <;> decide

theorem free_dotForm (plain : IsPlain name) (part : Section) :
    ∀ c ∈ (dotForm (sectionName part) name).toList, Free c := by
  have dot : ∀ c ∈ ".".toList, Free c := by
    unfold Free
    exact forall_mem_of_all (by decide)
  unfold dotForm
  rw [String.toList_append,String.toList_append]
  exact free_append (free_append (free_lead part) dot) (free_name plain)

theorem free_singleForm (plain : IsPlain name) (part : Section) :
    ∀ c ∈ (singleForm (sectionName part) name).toList, Free c := by
  have opening : ∀ c ∈ "['".toList, Free c := by
    unfold Free
    exact forall_mem_of_all (by decide)
  have closing : ∀ c ∈ "']".toList, Free c := by
    unfold Free
    exact forall_mem_of_all (by decide)
  unfold singleForm
  rw [String.toList_append,String.toList_append,String.toList_append]
  exact free_append (free_append (free_append (free_lead part) opening) (free_name plain)) closing

/-- What follows the quote of a double-quoted form cannot follow a string of JSON. -/
theorem plain_opens (plain : IsPlain name) (ci : Bool) :
    ∃ d ∈ ((name ++ "\"]").toList.map (Json.fold ci)).head?, d ∉ Json.closers := by
  have small : ∀ d ∈ Json.closers, d.toNat < 65 ∨ (90 < d.toNat ∧ d.toNat < 97) ∨ 122 < d.toNat :=
    forall_mem_of_all (by decide)
  rw [String.toList_append]
  cases shape : name.toList with
  | nil =>
    refine ⟨Json.fold ci '"',rfl,?_⟩
    cases ci <;> decide
  | cons c rest =>
    refine ⟨Json.fold ci c,rfl,?_⟩
    intro closer
    have same := (Json.fold_eq_iff ci (small _ closer)).mp rfl
    rw [← same] at closer
    obtain ⟨unescaped,mark⟩ := plain c (by simp [shape])
    have newline : c ≠ '\n' := fun given => (by rw [given] at unescaped; cases unescaped)
    simp only [Json.closers,List.mem_cons,List.not_mem_nil,or_false,not_or] at closer mark
    obtain ⟨-,brace,-,bracket,colon,comma⟩ := mark
    rcases closer with closed | closed | closed | closed | closed
    · exact comma closed
    · exact bracket closed
    · exact brace closed
    · exact colon closed
    · exact newline closed

/-- A double-quoted form is found in the name of a step only. -/
theorem holds_doubleForm (plain : IsPlain name) (part : Section) :
    Holds part (doubleForm (sectionName part) name) (renderDslForScan w dsl) ↔
      ∃ step ∈ scannedSteps dsl, Holds part (doubleForm (sectionName part) name) step.1 := by
  let ci := insensitive part
  have parts : (doubleForm (sectionName part) name).toList.map (Json.fold ci) =
      'i' :: (("ncoming." ++ sectionName part ++ "[").toList.map (Json.fold ci) ++
        '"' :: (name ++ "\"]").toList.map (Json.fold ci)) := by
    have letters : Json.fold ci 'i' = 'i' ∧ Json.fold ci '"' = '"' := by
      cases ci <;> decide
    simp [doubleForm,letters]
  have lead : ∀ c ∈ 'i' :: ("ncoming." ++ sectionName part ++ "[").toList, Free c := by
    unfold Free
    apply forall_mem_of_all
    cases part <;> decide
  have letter : Json.fold ci 'i' = 'i' := by
    cases ci <;> decide
  have folded := free_fold ci lead
  rw [List.map_cons,letter] at folded
  have tail : ':' ∉ (name ++ "\"]").toList.map (Json.fold ci) := by
    rw [String.toList_append,List.map_append,List.mem_append]
    rintro (named | closing)
    · exact (free_fold ci (free_name plain) _ named).2 rfl
    · revert closing
      cases ci <;> decide
  have colon : ':' ∉ ('i' :: ("ncoming." ++ sectionName part ++ "[").toList.map (Json.fold ci)) ++
      '"' :: (name ++ "\"]").toList.map (Json.fold ci) := by
    rw [List.mem_append,List.mem_cons (a := ':') (b := '"')]
    rintro (start | quote | later)
    · exact (folded _ start).2 rfl
    · exact absurd quote (by decide)
    · exact tail later
  have searched := infix_lines (w := w) (Json.searches_quote ci (fun c member => (folded c member).1) (plain_opens plain ci)) colon
    (scannedSteps dsl)
  unfold Holds
  rw [show insensitive part = ci from rfl,parts]
  refine searched.trans ?_
  simp only [and_false,exists_false,or_false]

theorem counted_iff (plain : IsPlain name) (part : Section) : Counted w dsl part name ↔
    (∃ text ∈ stepTexts dsl, Holds part (dotForm (sectionName part) name) text ∨
      Holds part (singleForm (sectionName part) name) text) ∨
    ∃ step ∈ scannedSteps dsl, Holds part (doubleForm (sectionName part) name) step.1 := by
  have dot : (dotForm (sectionName part) name).toList =
      'i' :: ("ncoming." ++ sectionName part ++ "." ++ name).toList := by
    simp [dotForm]
  have single : (singleForm (sectionName part) name).toList =
      'i' :: ("ncoming." ++ sectionName part ++ "['" ++ name ++ "']").toList := by
    simp [singleForm]
  rw [counted_iff_holds,holds_doubleForm plain,holds_rendered part dot (free_dotForm plain part),
    holds_rendered part single (free_singleForm plain part),← or_assoc]
  simp only [and_or_left,exists_or]

end Names

section Soundness
variable {idContinue : Char → Bool} {w : FloatWriter} {dsl : Dsl} {decl : DeclarationStep}
  {part : Section} {name : String}

/-- A name that strings reference with double quotes has another form too, which the search sees, and a
name at the start of a longer one is referenced itself. -/
structure Clear (idContinue : Char → Bool) (dsl : Dsl) (part : Section) (name : String) : Prop where
  quoted : ¬ Exempt part name → (∃ s ∈ stepStrings dsl, Holds part (doubleForm (sectionName part) name) s) →
    (∃ text ∈ stepTexts dsl, Holds part (dotForm (sectionName part) name) text ∨
      Holds part (singleForm (sectionName part) name) text) ∨
    ∃ step ∈ scannedSteps dsl, Holds part (doubleForm (sectionName part) name) step.1
  longer : (∃ text ∈ stepTexts dsl, Holds part (dotForm (sectionName part) name) text) →
    ∃ text ∈ stepTexts dsl, References idContinue part name text

/-- The JSON text of the steps has a form of a name. -/
def InJson (w : FloatWriter) (dsl : Dsl) (part : Section) (name : String) : Prop :=
  ∃ form ∈ [dotForm,singleForm,doubleForm], Holds part (form (sectionName part) name) (renderDslForScan w dsl)

/-- The JSON text of the steps has a form of a name when the steps do. -/
structure Spelled (idContinue : Char → Bool) (w : FloatWriter) (dsl : Dsl) (part : Section)
    (name : String) : Prop where
  found : ¬ Exempt part name → (∃ s ∈ stepStrings dsl, References idContinue part name s) → InJson w dsl part name
  meant : InJson w dsl part name → ∃ text ∈ stepTexts dsl, References idContinue part name text

theorem stepStrings_subset (member : s ∈ stepStrings dsl) : s ∈ stepTexts dsl := by
  obtain ⟨step,inside,held⟩ := List.mem_flatMap.mp member
  exact List.mem_flatMap.mpr ⟨step,inside,List.mem_cons_of_mem _ (Json.strings_subset_texts _ s held)⟩

theorem stepName_mem (member : step ∈ scannedSteps dsl) : step.1 ∈ stepTexts dsl :=
  List.mem_flatMap.mpr ⟨step,member,List.mem_cons_self⟩

theorem HoldsDot.holds (held : HoldsDot idContinue part name text) :
    Holds part (dotForm (sectionName part) name) text := by
  obtain ⟨before,here,after,same,form,_⟩ := held
  refine ⟨before.map (Json.fold (insensitive part)),after.map (Json.fold (insensitive part)),?_⟩
  rw [same,List.map_append,List.map_append,form]

/-- The audit is sound for a declared field when it counts what is referenced and nothing else. -/
theorem soundFor_iff (declared : dsl.declaration = some decl)
    (listed : name ∈ (declaredFields decl part).map (·.field)) :
    SoundFor idContinue w dsl part name ↔
      (¬ Exempt part name → (∃ s ∈ stepStrings dsl, References idContinue part name s) → Counted w dsl part name) ∧
      (Counted w dsl part name → ∃ text ∈ stepTexts dsl, References idContinue part name text) := by
  constructor
  · intro sound
    refine ⟨?_,sound.counted⟩
    intro exempt referenced
    by_contra uncounted
    exact (sound.reported referenced "" "").1 ((reported_overDeclared declared part).mpr ⟨listed,exempt,uncounted⟩)
  · rintro ⟨found,counted⟩
    refine ⟨?_,counted⟩
    intro referenced project key
    constructor
    · intro reported
      obtain ⟨_,exempt,uncounted⟩ := (reported_overDeclared declared part).mp reported
      exact uncounted (found exempt referenced)
    · rintro rfl reported
      obtain ⟨_,_,_,_,uncounted⟩ := (reported_unused declared).mp reported
      exact uncounted (found (fun exempt => by cases exempt.1) referenced)

theorem soundFor_plain (declared : dsl.declaration = some decl)
    (listed : name ∈ (declaredFields decl part).map (·.field))
    (plain : IsPlain name) : SoundFor idContinue w dsl part name ↔ Clear idContinue dsl part name := by
  have counted : Counted w dsl part name ↔ _ := counted_iff plain part
  rw [soundFor_iff declared listed]
  constructor
  · rintro ⟨found,meant⟩
    constructor
    · rintro exempt ⟨s,member,double⟩
      exact counted.mp (found exempt ⟨s,member,.double double⟩)
    · rintro ⟨text,member,dot⟩
      exact meant (counted.mpr (.inl ⟨text,member,.inl dot⟩))
  · intro clear
    constructor
    · rintro exempt ⟨s,member,dot | single | double⟩
      · exact counted.mpr (.inl ⟨s,stepStrings_subset member,.inl dot.holds⟩)
      · exact counted.mpr (.inl ⟨s,stepStrings_subset member,.inr single⟩)
      · exact counted.mpr (clear.quoted exempt ⟨s,member,double⟩)
    · intro given
      rcases counted.mp given with ⟨text,member,dot | single⟩ | ⟨step,member,double⟩
      · exact clear.longer ⟨text,member,dot⟩
      · exact ⟨text,member,.single single⟩
      · exact ⟨step.1,stepName_mem member,.double double⟩

theorem soundFor_spelled (declared : dsl.declaration = some decl)
    (listed : name ∈ (declaredFields decl part).map (·.field)) :
    SoundFor idContinue w dsl part name ↔ Spelled idContinue w dsl part name := by
  have counted : Counted w dsl part name ↔ InJson w dsl part name := by
    rw [counted_iff_holds]
    unfold InJson
    simp
  rw [soundFor_iff declared listed,counted]
  exact ⟨fun given => ⟨given.1,given.2⟩,fun given => ⟨given.found,given.meant⟩⟩

/-- The audit of a DSL is sound when no declared name is referenced with double quotes only or stands
at the start of longer names only. Of a name with JSON punctuation the JSON text decides. -/
theorem auditSound_iff (idContinue : Char → Bool) (w : FloatWriter) (dsl : Dsl) :
    AuditSound idContinue w dsl ↔ ∀ decl, dsl.declaration = some decl →
    ∀ part, ∀ field ∈ declaredFields decl part,
      (IsPlain field.field → Clear idContinue dsl part field.field) ∧
      (¬ IsPlain field.field → Spelled idContinue w dsl part field.field) := by
  unfold AuditSound
  refine forall_congr' fun decl => forall_congr' fun declared => forall_congr' fun part =>
    forall_congr' fun field => forall_congr' fun member => ?_
  have listed : field.field ∈ (declaredFields decl part).map (·.field) := List.mem_map_of_mem member
  by_cases plain : IsPlain field.field
  · rw [soundFor_plain declared listed plain]
    exact ⟨fun clear => ⟨fun _ => clear,fun not => absurd plain not⟩,fun given => given.1 plain⟩
  · rw [soundFor_spelled declared listed]
    exact ⟨fun spelled => ⟨fun given => absurd given plain,fun _ => spelled⟩,fun given => given.2 plain⟩

end Soundness

section Runs

theorem holdsDot_iff {idContinue : Char → Bool} {part : Section} {name text : String} :
    HoldsDot idContinue part name text ↔
    let form := (dotForm (sectionName part) name).toList.map (Json.fold (insensitive part))
    ∃ i ∈ List.range (text.toList.length + 1),
      ((text.toList.drop i).take form.length).map (Json.fold (insensitive part)) = form ∧
        goesOn idContinue (text.toList.drop (i + form.length)) = false := by
  constructor
  · rintro ⟨before,held,after,same,folded,ends⟩
    have size := congrArg List.length folded
    rw [List.length_map] at size
    refine ⟨before.length,List.mem_range.mpr ?_,?_,?_⟩
    · rw [same,List.length_append,List.length_append]
      omega
    · rw [same,List.append_assoc,List.drop_left,← size,List.take_left,folded]
    · rwa [same,← size,← List.length_append,List.drop_left]
  · rintro ⟨i,_,folded,ends⟩
    refine ⟨text.toList.take i,_,_,?_,folded,ends⟩
    rw [List.append_assoc,← List.drop_drop,List.take_append_drop,List.take_append_drop]

instance (part : Section) (pattern text : String) : Decidable (Holds part pattern text) :=
  inferInstanceAs (Decidable (_ <:+: _))

instance (idContinue : Char → Bool) (part : Section) (name text : String) :
    Decidable (HoldsDot idContinue part name text) :=
  decidable_of_iff' _ holdsDot_iff

instance (idContinue : Char → Bool) (part : Section) (name text : String) :
    Decidable (References idContinue part name text) :=
  decidable_of_iff (HoldsDot idContinue part name text ∨ Holds part (singleForm (sectionName part) name) text ∨
      Holds part (doubleForm (sectionName part) name) text)
    ⟨fun given => given.elim .dot fun later => later.elim .single .double,
      fun given => match given with
        | .dot held => .inl held
        | .single held => .inr (.inl held)
        | .double held => .inr (.inr held)⟩

/-- Right for floats that are small natural numbers. -/
def naturalFloats : FloatWriter where
  text q := q.num.natAbs.repr ++ ".0"
  numeric := by
    intro q c member
    rw [String.toList_append,Nat.toList_repr] at member
    rcases List.mem_append.mp member with digit | rest
    · exact .inl (Nat.isDigit_of_mem_toDigits (by decide) (by decide) digit)
    · have ending : ∀ c ∈ ".0".toList, c.isDigit = true ∨ c ∈ ['-','+','.','e'] :=
        forall_mem_of_all (by decide)
      exact ending c rest

/-- A DSL that declares the required field `name` and returns a value. -/
def returning (value : String) : Dsl where
  steps := (AList.singleton "r" (.returnStep { returnValue := .string value })).insert "declaration"
    (.declaration { allowlist := some { body := some [{ field := "name", required := some true }] } })

/-- For texts in ASCII. -/
def asciiNames (_ : Char) : Bool := false

/-- A reference with double quotes is reported as missing, and that of a longer name is none. -/
theorem double_quoted_reported :
    (Reported naturalFloats "app" "POST/users" (returning "$\x7bincoming.body[\"name\"]\x7d") "declaration.body.over_declared"
        "name" ∧
      Reported naturalFloats "app" "POST/users" (returning "$\x7bincoming.body[\"name\"]\x7d")
        "declaration.required_but_unused" "name" ∧
      ¬ AuditSound asciiNames naturalFloats (returning "$\x7bincoming.body[\"name\"]\x7d")) ∧
    ¬ AuditSound asciiNames naturalFloats (returning "$\x7bincoming.body.name2\x7d") := by
  have declared (value : String) : (returning value).declaration =
      some { allowlist := some { body := some [{ field := "name", required := some true }] } } := rfl
  have uncounted : ¬ Counted naturalFloats (returning "$\x7bincoming.body[\"name\"]\x7d") .body "name" := by
    unfold Counted
    decide +kernel
  have counted : Counted naturalFloats (returning "$\x7bincoming.body.name2\x7d") .body "name" := by
    unfold Counted
    decide +kernel
  have quoted : ∃ s ∈ stepStrings (returning "$\x7bincoming.body[\"name\"]\x7d"), References asciiNames .body "name" s := by
    decide +kernel
  have longer : ¬ ∃ text ∈ stepTexts (returning "$\x7bincoming.body.name2\x7d"), References asciiNames .body "name" text := by
    decide +kernel
  have surplus : Reported naturalFloats "app" "POST/users" (returning "$\x7bincoming.body[\"name\"]\x7d")
      (sectionCode (sectionName .body) "over_declared") "name" := by
    rw [reported_overDeclared (declared _)]
    exact ⟨List.mem_cons_self,(fun exempt => by cases exempt.1),uncounted⟩
  refine ⟨⟨surplus,?_,?_⟩,?_⟩
  · rw [reported_unused (declared _)]
    exact ⟨_,List.mem_cons_self,rfl,rfl,uncounted⟩
  · intro sound
    exact ((sound _ (declared _) .body _ List.mem_cons_self).reported quoted "app" "POST/users").1 surplus
  · intro sound
    exact longer ((sound _ (declared _) .body _ List.mem_cons_self).counted counted)

end Runs

end Ruuter.DriftAudit
