import Ruuter.NestedGrammar

/-! `dsl-lint` (`src/bin/dsl_lint.rs`): the checks of one step file, and how the steps that it
recognises compare with those that the dispatcher of the parser recognises. -/
namespace Ruuter

/-- `STEP_KEYS`. -/
def stepKeys : List String :=
  ["assign","call","declaration","detach","iterate","log","parallel_http","return","single_flight",
   "state","switch","template","ws_send","ws_tag"]

namespace Interpolate

def iterRefsFrom : Nat → List Char → List String
  | 0, _ | _, [] => []
  | n + 1, c :: text =>
    match reference (c :: text) with
    | none => iterRefsFrom n text
    | some (_,rest) =>
      String.ofList ((c :: text).take (text.length + 1 - rest.length)) :: iterRefsFrom n rest

/-- The references of a text, as they are written. -/
def iterRefs (input : String) : List String := iterRefsFrom input.length input.toList

end Interpolate

namespace Lint

inductive Severity
  | error | warning
deriving DecidableEq

/-- What the checks of a step file can find. -/
inductive Finding
  | yaml (message : String)
  | notMapping (step kind : String)
  | noExecutableSteps
  | unrecognised (step : String)
  | danglingNext (step target : String)
  | danglingBranch (step target : String)
  | unreachable (step entry : String)
  | unresolvedConstant (literal : String)
  | unknownTemplate (target : String)
deriving DecidableEq

def Finding.message : Finding → String
  | .yaml message => "YAML parse error: " ++ message
  | .notMapping step kind => "step '" ++ step ++ "': body is not a mapping (got: " ++ kind ++ ")"
  | .noExecutableSteps => "DSL has no executable steps"
  | .unrecognised step =>
    "step '" ++ step ++ "': unrecognised step (expected one of: " ++ ", ".intercalate stepKeys ++ ")"
  | .danglingNext step target =>
    "step '" ++ step ++ "': next target '" ++ target ++ "' does not resolve to any step in this DSL"
  | .danglingBranch step target =>
    "step '" ++ step ++ "': switch branch next '" ++ target ++ "' does not resolve"
  | .unreachable step entry => "step '" ++ step ++ "' is not reachable from entry '" ++ entry ++ "'"
  | .unresolvedConstant literal =>
    "unresolved constant reference '" ++ literal ++
      "' — add to constants.ini or the runner will forward the literal to reqwest"
  | .unknownTemplate target =>
    "template step references '" ++ target ++ "' but no DSL with that key was found"

structure Item where
  severity : Severity
  finding : Finding
deriving DecidableEq

/-- The report on one file. -/
structure Report where
  filesOk : Nat := 0
  errors : Nat := 0
  warnings : Nat := 0
  items : List Item := []

namespace Report

def fileErrors (report : Report) (findings : List Finding) : Report :=
  { report with
    errors := report.errors + findings.length
    items := report.items ++ findings.map (Item.mk .error) }

def fileWarnings (report : Report) (findings : List Finding) : Report :=
  { report with
    warnings := report.warnings + findings.length
    items := report.items ++ findings.map (Item.mk .warning) }

end Report

structure ParsedStep where
  name : String
  kind : String
  next : Option String
  switchTargets : List String

structure ParsedFile where
  entryStep : Option String
  steps : List ParsedStep
  raw : String
  templateTargets : List String
  hasProxyDeclaration : Bool

def yamlKind : Yaml → String
  | .null => "null"
  | .bool _ => "bool"
  | .number _ | .nonFinite => "number"
  | .string _ => "string"
  | .sequence _ => "sequence"
  | .mapping _ => "mapping"
  | .tagged _ _ => "tagged"

section ParseFile

variable (m : List (Yaml × Yaml))

/-- The first step key that is present. -/
def stepKind : String := (stepKeys.find? (keyPresent m)).getD "unknown"

/-- The targets of the branches of a `switch:`. -/
def switchTargets : List String :=
  match Yaml.get? m "switch" with
  | some (.sequence branches) => branches.filterMap fun branch =>
    match branch with
    | .mapping members =>
      match Yaml.get? members "next" with
      | some (.string target) => some target
      | _ => none
    | _ => none
  | _ => []

def templateTarget : Option String :=
  if stepKind m = "template" then
    match Yaml.get? m "template" with
    | some (.string target) => some target
    | _ => none
  else none

/-- A `proxy:` on the step itself or in its `declaration:`. -/
def declaresProxy : Bool :=
  keyPresent m "proxy" ||
    match Yaml.get? m "declaration" with
    | some (.mapping members) => keyPresent members "proxy"
    | _ => false

def parsedStep (name : String) : ParsedStep where
  name := name
  kind := stepKind m
  next := strField m "next"
  switchTargets := if stepKind m = "switch" then switchTargets m else []

end ParseFile

/-- The finding on a step whose body is not a mapping. -/
def bodyFinding (entry : Sigma fun _ : String => Yaml) : Option Finding :=
  match entry.2 with
  | .mapping _ => none
  | other => some (.notMapping entry.1 (yamlKind other))

def mappingEntry (entry : Sigma fun _ : String => Yaml) : Option (String × List (Yaml × Yaml)) :=
  match entry.2 with
  | .mapping m => some (entry.1,m)
  | _ => none

/-- `parse_file` on the text of a file. -/
def parseFile (parser : DslParser) (strict : Bool) (raw : String) : Except (List Finding) ParsedFile :=
  match parser.serde.yaml (parser.replaceConstants raw) with
  | .error message => .error [.yaml message]
  | .ok map =>
    let errs := if strict then map.entries.filterMap bodyFinding else []
    let mappings := map.entries.filterMap mappingEntry
    if errs ≠ [] then .error errs
    else
      .ok
        { entryStep := (map.entries.head?.bind mappingEntry).map (·.1)
          steps := mappings.map fun entry => parsedStep entry.2 entry.1
          raw := raw
          templateTargets := mappings.filterMap fun entry => templateTarget entry.2
          hasProxyDeclaration := mappings.any fun entry => declaresProxy entry.2 }

section CheckDsl

variable (file : ParsedFile)

def unrecognisedSteps : List Finding :=
  (file.steps.filter fun step => step.kind = "unknown" && step.name ≠ "declaration").map
    fun step => .unrecognised step.name

def danglingTargets : List Finding :=
  let dangling (target : String) : Bool := target ≠ "end" && !file.steps.any (·.name = target)
  file.steps.flatMap fun step =>
    (step.next.toList.filter dangling).map (.danglingNext step.name) ++
      (step.switchTargets.filter dangling).map (.danglingBranch step.name)

/-- The names reached from a step, after those already reached. The bound is the number of
names that the calls can add. -/
def walkReachable (steps : List ParsedStep) : Nat → String → List String → List String
  | 0, _, out => out
  | n + 1, start, out =>
    if start ∈ out then out
    else
      let out := start :: out
      let out :=
        match steps.find? (·.name = start) with
        | none => out
        | some step =>
          let out := (step.next.toList.filter (· ≠ "end")).foldl (fun out t => walkReachable steps n t out) out
          (step.switchTargets.filter (· ≠ "end")).foldl (fun out t => walkReachable steps n t out) out
      -- A step without a `next:` goes on to the step below it.
      match steps.dropWhile (·.name ≠ start) with
      | step :: below :: _ =>
        if below.name ∉ out ∧ step.next = none ∧ step.kind ≠ "return" then
          walkReachable steps n below.name out
        else out
      | _ => out

def unreachableSteps : List Finding :=
  match file.entryStep with
  | none => []
  | some entry =>
    let bound := 1 + (file.steps.map fun step => 2 + step.switchTargets.length).sum
    let reachable := walkReachable file.steps bound entry []
    (file.steps.filter fun step => step.name ∉ reachable && step.kind ≠ "declaration").map
      fun step => .unreachable step.name entry

def unresolvedConstants (parser : DslParser) : List Finding :=
  (Interpolate.iterRefs (parser.replaceConstants file.raw)).map .unresolvedConstant

/-- The template targets that no key of the tree matches. -/
def unknownTemplates (dslKeys : List String) : List Finding :=
  let known (target : String) : Bool := dslKeys.any fun key =>
    key = target || Text.endsWith key target || key = String.ofList (target.toList.dropWhile (· = '/'))
  (file.templateTargets.filter fun target => !known target).map .unknownTemplate

def checkDsl (parser : DslParser) (dslKeys : List String) (report : Report) : Report :=
  let realSteps := file.steps.filter (·.kind ≠ "declaration")
  if realSteps = [] ∧ file.templateTargets = [] ∧ file.hasProxyDeclaration = false then
    report.fileErrors [.noExecutableSteps]
  else
    let report := report.fileErrors (unrecognisedSteps file)
    let report := report.fileErrors (danglingTargets file)
    let report := report.fileWarnings (unreachableSteps file)
    let report := report.fileWarnings (unresolvedConstants file parser)
    let report := report.fileErrors (unknownTemplates file dslKeys)
    { report with filesOk := report.filesOk + 1 }

end CheckDsl

/-- The checks of one step file: `parse_file` in strict mode, then `check_dsl`. -/
def lint (parser : DslParser) (dslKeys : List String) (raw : String) : Report :=
  match parseFile parser true raw with
  | .error errs => Report.fileErrors {} errs
  | .ok file => checkDsl file parser dslKeys {}

/-- The step whose own form a finding is about. -/
def Finding.formOf : Finding → Option String
  | .notMapping step _ | .unrecognised step => some step
  | _ => none

/-- An error on the form of a step. -/
def Report.Rejects (report : Report) (name : String) : Prop :=
  ∃ item ∈ report.items, item.severity = .error ∧ item.finding.formOf = some name

/-- The errors of the dispatcher on the keys of a step. -/
def noDiscriminator (name : String) : RuuterError :=
  .dslParse ("step '" ++ name ++ "': no recognised step discriminator (expected one of " ++
    "call:, template:, assign:, return:, switch:, log:, state:, iterate:, parallel_http:, " ++
    "detach:, ws_send:, ws_tag:, single_flight:, or a declaration field)")

def severalActions (name : String) (present : List String) : RuuterError :=
  let quoted (keys : List String) := keys.map fun key => "`" ++ key ++ ":`"
  .dslParse ("step '" ++ name ++ "' declares " ++ toString present.length ++
    " actions in one step (" ++ " and ".intercalate (quoted present) ++
    "). A DSL step must declare exactly one action (" ++ ", ".intercalate (quoted actionStepKeys) ++
    "). Move each action into its own named step and chain them with `next:`.")

def IsMapping (value : Yaml) : Prop := ∃ m, value = .mapping m

/-- The parser rejects a step that is not a mapping or that has no discriminator. -/
def Unrecognised (serde : Serde) (name : String) (value : Yaml) : Prop :=
  (¬ IsMapping value ∧ ∃ e, parseStep serde name value = .error e) ∨
    parseStep serde name value = .error (noDiscriminator name)

/-- The linter and the parser recognise the same steps of a text, and both report a step with
several actions. -/
def Agrees (parser : DslParser) (dslKeys : List String) (raw : String) : Prop :=
  ∀ map, parser.serde.yaml (parser.replaceConstants raw) = .ok map →
    ∀ name value, map.lookup name = some value →
      ((lint parser dslKeys raw).Rejects name ↔ Unrecognised parser.serde name value) ∧
        ∀ m, value = .mapping m → 1 < (actions m).length →
          (lint parser dslKeys raw).Rejects name ∧
            parseStep parser.serde name value = .error (severalActions name (actions m))

/-- A step key of the linter. -/
def HasStepKey (m : List (Yaml × Yaml)) : Prop := ∃ key ∈ stepKeys, keyPresent m key = true

def HasField (m : List (Yaml × Yaml)) : Prop := ∃ key ∈ declarationKeys, keyPresent m key = true

/-- A key that decides the variant in the parser: a `call:` that is a string, another action or a
declaration field. -/
def Dispatched (m : List (Yaml × Yaml)) : Prop :=
  (strField m "call").isSome = true ∨
    (∃ key ∈ actionStepKeys, key ≠ "call" ∧ keyPresent m key = true) ∨ HasField m

/-- The documents on which the two grammars meet. -/
structure Consistent (map : StringMap Yaml) : Prop where
  single : ∀ name m, map.lookup name = some (.mapping m) → (actions m).length ≤ 1
  /-- A `declaration:`, or a `call:` that is no string, has a declaration field beside it. -/
  known : ∀ name m, map.lookup name = some (.mapping m) → HasStepKey m → Dispatched m
  /-- Without a step key, the declarations and the bare steps are those that are named
  `declaration` or stand in a file with a step that is no mapping. -/
  unknown : ∀ name m, map.lookup name = some (.mapping m) → ¬ HasStepKey m →
    (HasField m ∨ bareControl m = true ↔
      name = "declaration" ∨ ∃ other value, map.lookup other = some value ∧ ¬ IsMapping value)

section Items

theorem mem_fileErrors {report : Report} : item ∈ (report.fileErrors findings).items ↔
    item ∈ report.items ∨ ∃ finding ∈ findings, item = ⟨.error,finding⟩ := by
  simp [Report.fileErrors,eq_comm]

theorem mem_fileWarnings {report : Report} : item ∈ (report.fileWarnings findings).items ↔
    item ∈ report.items ∨ ∃ finding ∈ findings, item = ⟨.warning,finding⟩ := by
  simp [Report.fileWarnings,eq_comm]

theorem rejects_fileErrors {report : Report} : (report.fileErrors findings).Rejects name ↔
    report.Rejects name ∨ ∃ finding ∈ findings, finding.formOf = some name := by
  constructor
  · rintro ⟨item,member,severity,form⟩
    rcases mem_fileErrors.mp member with before | ⟨finding,found,rfl⟩
    · exact .inl ⟨item,before,severity,form⟩
    · exact .inr ⟨finding,found,form⟩
  · rintro (⟨item,before,severity,form⟩ | ⟨finding,found,form⟩)
    · exact ⟨item,mem_fileErrors.mpr (.inl before),severity,form⟩
    · exact ⟨_,mem_fileErrors.mpr (.inr ⟨finding,found,rfl⟩),rfl,form⟩

/-- Warnings reject nothing. -/
theorem rejects_fileWarnings {report : Report} :
    (report.fileWarnings findings).Rejects name ↔ report.Rejects name := by
  constructor
  · rintro ⟨item,member,severity,form⟩
    rcases mem_fileWarnings.mp member with before | ⟨finding,_,rfl⟩
    · exact ⟨item,before,severity,form⟩
    · cases severity
  · rintro ⟨item,before,severity,form⟩
    exact ⟨item,mem_fileWarnings.mpr (.inl before),severity,form⟩

theorem danglingTargets_formOf (member : finding ∈ danglingTargets file) : finding.formOf = none := by
  unfold danglingTargets at member
  obtain ⟨step,_,found⟩ := List.mem_flatMap.mp member
  rcases List.mem_append.mp found with next | branch
  · obtain ⟨target,_,rfl⟩ := List.mem_map.mp next
    rfl
  · obtain ⟨target,_,rfl⟩ := List.mem_map.mp branch
    rfl

theorem unknownTemplates_formOf (member : finding ∈ unknownTemplates file dslKeys) :
    finding.formOf = none := by
  obtain ⟨target,_,rfl⟩ := List.mem_map.mp member
  rfl

theorem mem_unrecognisedSteps : (∃ finding ∈ unrecognisedSteps file, finding.formOf = some name) ↔
    name ≠ "declaration" ∧ ∃ step ∈ file.steps, step.kind = "unknown" ∧ step.name = name := by
  unfold unrecognisedSteps
  constructor
  · rintro ⟨_,member,form⟩
    obtain ⟨step,kept,rfl⟩ := List.mem_map.mp member
    obtain ⟨inside,chosen⟩ := List.mem_filter.mp kept
    cases form
    simp only [Bool.and_eq_true,decide_eq_true_eq] at chosen
    exact ⟨chosen.2,step,inside,chosen.1,rfl⟩
  · rintro ⟨other,step,inside,kind,rfl⟩
    refine ⟨_,List.mem_map.mpr ⟨step,List.mem_filter.mpr ⟨inside,?_⟩,rfl⟩,rfl⟩
    simp [kind,other]

end Items

/-- Of the checks of a parsed file only the one for unrecognised steps is about the form of a step,
and a file with such a step is never taken for empty. -/
theorem rejects_checkDsl {file : ParsedFile} {parser : DslParser} :
    (checkDsl file parser dslKeys {}).Rejects name ↔
      name ≠ "declaration" ∧ ∃ step ∈ file.steps, step.kind = "unknown" ∧ step.name = name := by
  have fresh : ¬ ({} : Report).Rejects name := by
    rintro ⟨item,member,_⟩
    cases member
  unfold checkDsl
  simp only
  split
  · rename_i empty
    rw [rejects_fileErrors]
    constructor
    · rintro (before | ⟨finding,member,form⟩)
      · exact absurd before fresh
      · cases List.mem_singleton.mp member
        cases form
    · rintro ⟨_,step,inside,kind,_⟩
      have real : step ∈ file.steps.filter (·.kind ≠ "declaration") := by
        simp [inside,kind]
      rw [empty.1] at real
      cases real
  · have counted (report : Report) :
        ({ report with filesOk := report.filesOk + 1 } : Report).Rejects name ↔ report.Rejects name := Iff.rfl
    rw [counted,rejects_fileErrors,rejects_fileWarnings,rejects_fileWarnings,rejects_fileErrors,
      rejects_fileErrors,mem_unrecognisedSteps]
    constructor
    · rintro (((before | found) | ⟨finding,member,form⟩) | ⟨finding,member,form⟩)
      · exact absurd before fresh
      · exact found
      · rw [danglingTargets_formOf member] at form
        cases form
      · rw [unknownTemplates_formOf member] at form
        cases form
    · intro found
      exact .inl (.inl (.inr found))

theorem stepKind_unknown : stepKind m = "unknown" ↔ ¬ HasStepKey m := by
  have named : ∀ key ∈ stepKeys, key ≠ "unknown" := by decide
  unfold stepKind
  cases found : stepKeys.find? (keyPresent m) with
  | none => simpa [HasStepKey] using found
  | some key =>
    have member := List.mem_of_find?_eq_some found
    have present := List.find?_some found
    constructor
    · intro unknown
      exact absurd unknown (named key member)
    · intro absent
      exact absurd ⟨key,member,present⟩ absent

/-- The findings on bodies are those of the entries that are no mappings. -/
theorem mem_bodyFindings {map : StringMap Yaml} : finding ∈ map.entries.filterMap bodyFinding ↔
    ∃ name value, map.lookup name = some value ∧ ¬ IsMapping value ∧
      finding = .notMapping name (yamlKind value) := by
  constructor
  · intro member
    obtain ⟨⟨name,value⟩,inside,given⟩ := List.mem_filterMap.mp member
    refine ⟨name,value,AList.mem_lookup_iff.mpr inside,?_⟩
    unfold bodyFinding at given
    split at given
    · cases given
    · rename_i other
      cases given
      exact ⟨fun ⟨m,same⟩ => other m same,rfl⟩
  · rintro ⟨name,value,found,plain,rfl⟩
    refine List.mem_filterMap.mpr ⟨⟨name,value⟩,AList.mem_lookup_iff.mp found,?_⟩
    unfold bodyFinding
    split
    · rename_i m same
      exact absurd ⟨m,same⟩ plain
    · rfl

theorem mem_mappings {map : StringMap Yaml} : (name,m) ∈ map.entries.filterMap mappingEntry ↔
    map.lookup name = some (.mapping m) := by
  constructor
  · intro member
    obtain ⟨⟨other,value⟩,inside,given⟩ := List.mem_filterMap.mp member
    unfold mappingEntry at given
    split at given
    · rename_i held same
      cases given
      cases same
      exact AList.mem_lookup_iff.mpr inside
    · cases given
  · intro found
    exact List.mem_filterMap.mpr ⟨⟨name,.mapping m⟩,AList.mem_lookup_iff.mp found,rfl⟩

section Loaded

variable {parser : DslParser} {dslKeys : List String} {raw : String} {map : StringMap Yaml}
  {name : String} {value : Yaml}
  (loaded : parser.serde.yaml (parser.replaceConstants raw) = .ok map)
  (found : map.lookup name = some value)
include loaded found

/-- With a step that is no mapping, exactly the steps that are no mappings are reported. -/
theorem rejects_lint_of_scalar (scalar : ∃ other body, map.lookup other = some body ∧ ¬ IsMapping body) :
    (lint parser dslKeys raw).Rejects name ↔ ¬ IsMapping value := by
  obtain ⟨other,body,held,plain⟩ := scalar
  have some_finding : map.entries.filterMap bodyFinding ≠ [] :=
    List.ne_nil_of_mem (mem_bodyFindings.mpr ⟨other,body,held,plain,rfl⟩)
  have failed : parseFile parser true raw = .error (map.entries.filterMap bodyFinding) := by
    simp [parseFile,loaded,some_finding]
  unfold lint
  rw [failed]
  simp only [rejects_fileErrors]
  constructor
  · rintro (⟨item,member,_⟩ | ⟨finding,member,form⟩)
    · cases member
    · obtain ⟨step,given,lookup,shape,rfl⟩ := mem_bodyFindings.mp member
      cases form
      cases found.symm.trans lookup
      exact shape
  · intro shape
    exact .inr ⟨_,mem_bodyFindings.mpr ⟨name,value,found,shape,rfl⟩,rfl⟩

/-- Without one, the steps without a step key are reported, unless their name is `declaration`. -/
theorem rejects_lint_of_mappings (mappings : ∀ other body, map.lookup other = some body → IsMapping body) :
    (lint parser dslKeys raw).Rejects name ↔
      name ≠ "declaration" ∧ ∃ m, value = .mapping m ∧ ¬ HasStepKey m := by
  have no_finding : map.entries.filterMap bodyFinding = [] := by
    apply List.eq_nil_iff_forall_not_mem.mpr
    intro finding member
    obtain ⟨other,body,held,plain,_⟩ := mem_bodyFindings.mp member
    exact plain (mappings other body held)
  unfold lint
  simp only [parseFile,loaded,if_true,no_finding,ne_eq,not_true_eq_false,if_false]
  rw [rejects_checkDsl]
  refine and_congr_right fun _ => ?_
  constructor
  · rintro ⟨step,member,unknown,same⟩
    obtain ⟨⟨other,m⟩,inside,rfl⟩ := List.mem_map.mp member
    have held := mem_mappings.mp inside
    subst same
    cases found.symm.trans held
    exact ⟨m,rfl,stepKind_unknown.mp unknown⟩
  · rintro ⟨m,rfl,absent⟩
    exact ⟨_,List.mem_map.mpr ⟨(name,m),mem_mappings.mpr found,rfl⟩,stepKind_unknown.mpr absent,rfl⟩

end Loaded

section Dispatch

/-- What is left when no action, no declaration field and no bare step is found. -/
structure Undiscriminated (m : List (Yaml × Yaml)) : Prop where
  call : strField m "call" = none
  actions : ∀ entry ∈ keyVariants, keyPresent m entry.1 = false
  fields : ∀ key ∈ declarationKeys, keyPresent m key = false
  bare : bareControl m = false

theorem noDiscriminator_eq (name : String) : ∃ rest,
    noDiscriminator name = .dslParse ("step '" ++ (name ++ ("': " ++ ("no recognised" ++ rest)))) := by
  have front : "': no recognised step discriminator (expected one of " =
      "': " ++ ("no recognised" ++ " step discriminator (expected one of ") := rfl
  unfold noDiscriminator
  simp only [front,String.append_assoc]
  exact ⟨_,rfl⟩

/-- An error that goes on differently behind the name of the step. -/
theorem ne_noDiscriminator (name : String) {front rest : String} (long : 4 ≤ front.toList.length)
    (apart : front.toList.take 4 ≠ ['\'',':',' ','n']) :
    RuuterError.dslParse ("step '" ++ (name ++ (front ++ rest))) ≠ noDiscriminator name := by
  intro same
  obtain ⟨tail,text⟩ := noDiscriminator_eq name
  have texts := RuuterError.dslParse.inj (same.trans text)
  rw [String.append_right_inj,String.append_right_inj] at texts
  have heads := congrArg (fun text => text.toList.take 4) texts
  simp only [String.toList_append,List.take_append_of_le_length long] at heads
  exact apart heads

theorem severalActions_ne {present : List String} : severalActions name present ≠ noDiscriminator name := by
  unfold severalActions
  simp only [String.append_assoc]
  exact ne_noDiscriminator name (by decide) (by decide)

theorem unknownCall_ne : RuuterError.dslParse ("step '" ++ name ++ "': unknown call '" ++ call ++
    "' (expected 'declare', 'reflect.mock', or 'http.<verb>')") ≠ noDiscriminator name := by
  simp only [String.append_assoc]
  exact ne_noDiscriminator name (by decide) (by decide)

theorem variantHint_several (many : 1 < (actions m).length) :
    variantHint name (keyPresent m) call bare = .error (severalActions name (actions m)) := by
  unfold actions at many
  unfold variantHint
  simp only
  rw [if_pos many]
  rfl

theorem variantHint_noDiscriminator (name : String) :
    variantHint name (keyPresent m) (strField m "call") (bareControl m) = .error (noDiscriminator name) ↔
      (actions m).length ≤ 1 ∧ Undiscriminated m := by
  by_cases many : 1 < (actions m).length
  · rw [variantHint_several many]
    constructor
    · intro same
      exact absurd (Except.error.inj same) severalActions_ne
    · rintro ⟨one,_⟩
      omega
  · have one : (actions m).length ≤ 1 := Nat.not_lt.mp many
    have several : ¬ 1 < (actionStepKeys.filter (keyPresent m)).length := many
    unfold variantHint
    simp only
    rw [if_neg several]
    simp only [one,true_and]
    cases call : strField m "call" with
    | some text =>
      dsimp only
      constructor
      · intro hint
        repeat' split at hint
        all_goals try cases hint
        exact absurd (Except.error.inj hint) unknownCall_ne
      · intro none
        cases call.symm.trans none.call
    | none =>
      cases first : keyVariants.find? fun entry => keyPresent m entry.1 with
      | some entry =>
        constructor
        · intro hint
          cases hint
        · intro none
          have present := List.find?_some first
          rw [none.actions entry (List.mem_of_find?_eq_some first)] at present
          cases present
      | none =>
        have absent : ∀ entry ∈ keyVariants, keyPresent m entry.1 = false := by simpa using first
        by_cases declared : (declarationKeys.any (keyPresent m) || bareControl m) = true
        · simp only [declared,if_true]
          constructor
          · intro hint
            cases hint
          · intro none
            rcases Bool.or_eq_true_iff.mp declared with field | bare
            · obtain ⟨key,member,present⟩ := List.any_eq_true.mp field
              rw [none.fields key member] at present
              cases present
            · cases none.bare.symm.trans bare
        · simp only [declared]
          obtain ⟨fields,bare⟩ := Bool.or_eq_false_iff.mp (Bool.not_eq_true _ ▸ declared)
          constructor
          · intro _
            exact ⟨call,absent,by simpa using fields,bare⟩
          · intro _
            rfl

end Dispatch

section Parse

open Eff

variable {serde : Serde} {m : List (Yaml × Yaml)}

/-- What `serde_json` says about a key that is no text is not a text of the dispatcher. -/
def PlainKeyErrors (serde : Serde) : Prop :=
  ∀ value, Text.startsWith (serde.keyError value) "no recognised" = false

theorem rejectIf_failsWith {p : Prop} [Decidable p] {fail : String → RuuterError} (message : String) :
    FailsWith fail (rejectIf p (fail message)) := by
  unfold rejectIf
  split
  · exact failsWith_error fail message
  · exact failsWith_ok ()

theorem validateAggregate_failsWith : FailsWith fail (validateAggregate fail body) := by
  unfold validateAggregate
  cases body.aggregate with
  | firstN => exact rejectIf_failsWith _
  | collectOk =>
    exact failsWith_bind (rejectIf_failsWith _) fun _ =>
      failsWith_bind (rejectIf_failsWith _) fun _ => rejectIf_failsWith _
  | collectAll =>
    exact failsWith_bind (rejectIf_failsWith _) fun _ =>
      failsWith_bind (rejectIf_failsWith _) fun _ => rejectIf_failsWith _

theorem validateParallelHttp_failsWith (name : String) : FailsWith
    (fun message => RuuterError.dslParse ("step '" ++ name ++ "': parallel_http." ++ message))
    (validateParallelHttp name body) := by
  refine failsWith_bind validateAggregate_failsWith fun _ => ?_
  simp only
  cases body.earlyExitOn.bind (·.statusRange) with
  | none => exact failsWith_bind (failsWith_ok ()) fun _ => rejectIf_failsWith _
  | some range => exact failsWith_bind (rejectIf_failsWith _) fun _ => rejectIf_failsWith _

theorem validateDetach_failsWith (name : String) : FailsWith
    (fun message => RuuterError.dslParse ("step '" ++ name ++ "': detach." ++ message))
    (validateDetach name body) :=
  failsWith_bind (rejectIf_failsWith _) fun _ =>
    failsWith_bind (rejectIf_failsWith _) fun _ => rejectIf_failsWith _

theorem validateStep_ne (name : String) : validateStep name step ≠ .error (noDiscriminator name) := by
  intro failed
  cases step with
  | parallelHttp s =>
    obtain ⟨message,same⟩ := validateParallelHttp_failsWith name _ failed
    simp only [String.append_assoc] at same
    exact ne_noDiscriminator name (by decide) (by decide) same.symm
  | detach s =>
    obtain ⟨message,same⟩ := validateDetach_failsWith name _ failed
    simp only [String.append_assoc] at same
    exact ne_noDiscriminator name (by decide) (by decide) same.symm
  | _ => cases failed

/-- Behind the dispatcher no error has the text of its last one. -/
theorem parseStep_noDiscriminator (plain : PlainKeyErrors serde) (name : String) :
    parseStep serde name (.mapping m) = .error (noDiscriminator name) ↔
      variantHint name (keyPresent m) (strField m "call") (bareControl m) = .error (noDiscriminator name) := by
  unfold parseStep
  simp only
  cases hint : variantHint name (keyPresent m) (strField m "call") (bareControl m) with
  | error e => simp only [bind,Except.bind,Except.error.injEq]
  | ok variant =>
    simp only [bind,Except.bind,reduceCtorEq,iff_false]
    cases (Yaml.mapping m).toJson serde.toFloatText with
    | none =>
      intro same
      have key := plain (.mapping m)
      obtain ⟨tail,text⟩ := noDiscriminator_eq name
      have texts := RuuterError.dslParse.inj ((Except.error.inj same).trans text)
      simp only [String.append_assoc,String.append_right_inj] at texts
      rw [texts,Text.startsWith_append] at key
      cases key
    | some json =>
      simp only
      cases (variant.reader false dslStep).read json with
      | none =>
        intro same
        obtain ⟨tail,text⟩ := noDiscriminator_eq name
        have texts := RuuterError.dslParse.inj ((Except.error.inj same).trans text)
        have heads := congrArg (fun text => text.toList.head?) texts
        simp [String.toList_append] at heads
      | some step =>
        simp only
        cases checked : validateStep name step with
        | error e =>
          intro same
          cases same
          exact validateStep_ne name checked
        | ok u =>
          intro same
          cases same

theorem unrecognised_mapping (plain : PlainKeyErrors serde) (name : String) :
    Unrecognised serde name (.mapping m) ↔ (actions m).length ≤ 1 ∧ Undiscriminated m := by
  rw [← variantHint_noDiscriminator name,← parseStep_noDiscriminator plain]
  constructor
  · rintro (⟨other,_⟩ | failed)
    · exact absurd ⟨m,rfl⟩ other
    · exact failed
  · exact .inr

theorem unrecognised_of_not_mapping (other : ¬ IsMapping value) (name : String) :
    Unrecognised serde name value := by
  refine .inl ⟨other,?_⟩
  cases value with
  | mapping m => exact absurd ⟨m,rfl⟩ other
  | _ => exact ⟨_,rfl⟩

end Parse

section Keys

variable {m : List (Yaml × Yaml)}

theorem stepKeys_action : ∀ key ∈ actionStepKeys, key ∈ stepKeys := by decide

theorem keyVariants_cover : ∀ key ∈ actionStepKeys, key ≠ "call" → ∃ entry ∈ keyVariants, entry.1 = key := by
  decide

/-- A step key is no control-flow field. -/
theorem bare_of_stepKey (given : HasStepKey m) : bareControl m = false := by
  obtain ⟨key,member,present⟩ := given
  have apart : ∀ key ∈ stepKeys, key ∉ controlKeys := by decide
  by_contra bare
  obtain ⟨value,found⟩ := Option.isSome_iff_exists.mp present
  have control := List.all_eq_true.mp (Bool.not_eq_false _ ▸ bare) _ (mem_of_get? found)
  exact apart key member (by simpa [Yaml.asStr?] using control)

theorem undiscriminated_iff : Undiscriminated m ↔ ¬ Dispatched m ∧ bareControl m = false := by
  constructor
  · intro none
    refine ⟨?_,none.bare⟩
    rintro (call | ⟨key,member,other,present⟩ | ⟨key,member,present⟩)
    · rw [none.call] at call
      cases call
    · obtain ⟨entry,inside,rfl⟩ := keyVariants_cover key member other
      rw [none.actions entry inside] at present
      cases present
    · rw [none.fields key member] at present
      cases present
  · rintro ⟨none,bare⟩
    refine ⟨?_,?_,?_,bare⟩
    · by_contra call
      exact none (.inl (Option.isSome_iff_ne_none.mpr call))
    · intro entry member
      obtain ⟨action,other⟩ := keyVariants_action entry member
      by_contra present
      exact none (.inr (.inl ⟨entry.1,action,other,by simpa using present⟩))
    · intro key member
      by_contra present
      exact none (.inr (.inr ⟨key,member,by simpa using present⟩))

/-- Without a step key only declaration fields are left. -/
theorem dispatched_of_no_stepKey (none : ¬ HasStepKey m) : Dispatched m ↔ HasField m := by
  constructor
  · rintro (call | ⟨key,member,_,present⟩ | field)
    · obtain ⟨text,held⟩ := Option.isSome_iff_exists.mp call
      exact absurd ⟨"call",by decide,call_present held⟩ none
    · exact absurd ⟨key,stepKeys_action key member,present⟩ none
    · exact field
  · intro field
    exact .inr (.inr field)

theorem hasStepKey_of_several (many : 1 < (actions m).length) : HasStepKey m := by
  obtain ⟨key,member⟩ := List.exists_mem_of_length_pos (Nat.lt_trans Nat.zero_lt_one many)
  obtain ⟨action,present⟩ := List.mem_filter.mp member
  exact ⟨key,stepKeys_action key action,present⟩

theorem single_of_no_stepKey (none : ¬ HasStepKey m) : (actions m).length ≤ 1 := by
  by_contra many
  exact none (hasStepKey_of_several (Nat.not_le.mp many))

end Keys

section Agreement

variable {parser : DslParser} {dslKeys : List String} {raw : String} {map : StringMap Yaml}
  (loaded : parser.serde.yaml (parser.replaceConstants raw) = .ok map)
include loaded

theorem rejects_lint_mapping (found : map.lookup name = some (.mapping m)) :
    (lint parser dslKeys raw).Rejects name ↔ ¬ HasStepKey m ∧
      ¬ (name = "declaration" ∨ ∃ other value, map.lookup other = some value ∧ ¬ IsMapping value) := by
  by_cases scalar : ∃ other value, map.lookup other = some value ∧ ¬ IsMapping value
  · rw [rejects_lint_of_scalar loaded found scalar]
    constructor
    · intro other
      exact absurd ⟨m,rfl⟩ other
    · rintro ⟨_,neither⟩
      exact absurd (.inr scalar) neither
  · have mappings : ∀ other body, map.lookup other = some body → IsMapping body := by
      intro other body held
      by_contra plain
      exact scalar ⟨other,body,held,plain⟩
    rw [rejects_lint_of_mappings loaded found mappings]
    constructor
    · rintro ⟨other,_,same,none⟩
      cases same
      exact ⟨none,fun either => either.elim other scalar⟩
    · rintro ⟨none,neither⟩
      exact ⟨fun declaration => neither (.inl declaration),m,rfl,none⟩

theorem rejects_lint_scalar (found : map.lookup name = some value) (other : ¬ IsMapping value) :
    (lint parser dslKeys raw).Rejects name :=
  (rejects_lint_of_scalar loaded found ⟨name,value,found,other⟩).mpr other

variable (plain : PlainKeyErrors parser.serde)
include plain

/-- On a step with one action at most the two agree as the document says. -/
theorem step_agrees_iff (found : map.lookup name = some (.mapping m)) (single : (actions m).length ≤ 1) :
    ((lint parser dslKeys raw).Rejects name ↔ Unrecognised parser.serde name (.mapping m)) ↔
      (HasStepKey m → Dispatched m) ∧ (¬ HasStepKey m → (HasField m ∨ bareControl m = true ↔
        name = "declaration" ∨ ∃ other value, map.lookup other = some value ∧ ¬ IsMapping value)) := by
  rw [rejects_lint_mapping loaded found,unrecognised_mapping plain,undiscriminated_iff]
  by_cases known : HasStepKey m
  · simp only [known,bare_of_stepKey known,single,not_true_eq_false,false_and,true_and,and_true,false_iff,
      not_not,true_imp_iff,false_imp_iff]
  · have neither : ¬ HasField m ∧ bareControl m = false ↔ ¬ (HasField m ∨ bareControl m = true) := by
      rw [not_or,Bool.not_eq_true]
    rw [dispatched_of_no_stepKey known,neither]
    simp only [known,single,not_false_eq_true,true_and,false_imp_iff,true_imp_iff,not_iff_not]
    exact iff_comm

theorem consistent_of_agrees (agrees : Agrees parser dslKeys raw) : Consistent map := by
  have single : ∀ name m, map.lookup name = some (.mapping m) → (actions m).length ≤ 1 := by
    intro name m found
    by_contra many
    have several : 1 < (actions m).length := Nat.not_le.mp many
    obtain ⟨reported,_⟩ := (agrees map loaded name _ found).2 m rfl several
    exact ((rejects_lint_mapping loaded found).mp reported).1 (hasStepKey_of_several several)
  have each := fun name m found => (step_agrees_iff loaded plain found (single name m found)).mp
    (agrees map loaded name _ found).1
  exact ⟨single,fun name m found => (each name m found).1,fun name m found => (each name m found).2⟩

theorem agrees_of_consistent (consistent : Consistent map) : Agrees parser dslKeys raw := by
  intro document read name value found
  cases loaded.symm.trans read
  by_cases shape : IsMapping value
  · obtain ⟨m,rfl⟩ := shape
    have single := consistent.single name m found
    refine ⟨?_,?_⟩
    · exact (step_agrees_iff loaded plain found single).mpr
        ⟨consistent.known name m found,consistent.unknown name m found⟩
    · intro other same several
      cases same
      exact absurd several (Nat.not_lt.mpr single)
  · refine ⟨?_,?_⟩
    · exact iff_of_true (rejects_lint_scalar loaded found shape) (unrecognised_of_not_mapping shape name)
    · intro m same
      exact absurd ⟨m,same⟩ shape

end Agreement

/-- Linter and parser recognise the same steps exactly on consistent documents. -/
theorem agrees_iff_consistent (parser : DslParser) (plain : PlainKeyErrors parser.serde)
    (dslKeys : List String) (raw : String) :
    Agrees parser dslKeys raw ↔
      ∀ map, parser.serde.yaml (parser.replaceConstants raw) = .ok map → Consistent map := by
  constructor
  · intro agrees map loaded
    exact consistent_of_agrees loaded plain agrees
  · intro consistent map loaded
    exact agrees_of_consistent loaded plain (consistent map loaded) map loaded

section Documents

open DslParser

theorem plainKeyErrors_oneDocument (content : String) (document : StringMap Yaml) :
    PlainKeyErrors (oneDocument content document).serde := by
  intro value
  have text : (oneDocument content document).serde.keyError value = "key must be a string" := rfl
  rw [text]
  decide

/-- An action, a step that is no mapping and a step with control-flow fields only. -/
def mixedContent : String := "start:\n  log: done\nstop: done\nskip:\n  next: end\n"

def bareStep : List (Yaml × Yaml) := [(.string "next",.string "end")]

def mixedDocument : StringMap Yaml where
  entries := [⟨"start",.mapping logStepMapping⟩,⟨"stop",.string "done"⟩,⟨"skip",.mapping bareStep⟩]
  nodupKeys := by simp [List.NodupKeys]

theorem mixed_agrees : Agrees (oneDocument mixedContent mixedDocument) [] mixedContent := by
  have text : (oneDocument mixedContent mixedDocument).replaceConstants mixedContent = mixedContent :=
    replaceConstants_plain _ (by decide +kernel)
  refine (agrees_iff_consistent _ (plainKeyErrors_oneDocument _ _) [] mixedContent).mpr ?_
  intro map loaded
  cases (oneDocument_loaded text).symm.trans loaded
  have steps : ∀ name m, mixedDocument.lookup name = some (.mapping m) →
      m = logStepMapping ∨ m = bareStep := by
    intro name m found
    have member := mem_mappings.mpr found
    have listed : mixedDocument.entries.filterMap mappingEntry =
        [("start",logStepMapping),("skip",bareStep)] := rfl
    rw [listed,List.mem_cons,List.mem_singleton] at member
    rcases member with same | same
    · exact .inl (Prod.mk.inj same).2
    · exact .inr (Prod.mk.inj same).2
  have logs : HasStepKey logStepMapping := ⟨"log",by decide,by decide⟩
  have bare : ¬ HasStepKey bareStep := by
    unfold HasStepKey
    decide
  constructor
  · intro name m found
    rcases steps name m found with rfl | rfl
    · decide
    · exact single_of_no_stepKey bare
  · intro name m found known
    rcases steps name m found with rfl | rfl
    · exact .inr (.inl ⟨"log",by decide,by decide,by decide⟩)
    · exact absurd known bare
  · intro name m found unknown
    rcases steps name m found with rfl | rfl
    · exact absurd logs unknown
    · refine iff_of_true (.inr (by decide)) (.inr ⟨"stop",.string "done",rfl,?_⟩)
      rintro ⟨m,same⟩
      cases same

/-- A bare step, a step with a `declaration:` only and a step with two actions. -/
def driftContent : String :=
  "skip:\n  next: about\nabout:\n  declaration:\n    internal: true\nboth:\n  log: done\n  return: ok\n"

def aboutStep : List (Yaml × Yaml) := [(.string "declaration",.mapping [(.string "internal",.bool true)])]

def bothStep : List (Yaml × Yaml) := [(.string "log",.string "done"),(.string "return",.string "ok")]

def driftDocument : StringMap Yaml where
  entries := [⟨"skip",.mapping [(.string "next",.string "about")]⟩,⟨"about",.mapping aboutStep⟩,
    ⟨"both",.mapping bothStep⟩]
  nodupKeys := by simp [List.NodupKeys]

/-- The linter rejects the bare step, which the parser accepts, and lets the other two pass, which
the parser rejects. -/
theorem grammars_disagree :
    let parser := oneDocument driftContent driftDocument
    (∃ step, parseStep parser.serde "skip" (.mapping [(.string "next",.string "about")]) = .ok step) ∧
      (lint parser [] driftContent).Rejects "skip" ∧
      parseStep parser.serde "about" (.mapping aboutStep) = .error (noDiscriminator "about") ∧
      ¬ (lint parser [] driftContent).Rejects "about" ∧
      parseStep parser.serde "both" (.mapping bothStep) = .error (severalActions "both" ["log","return"]) ∧
      ¬ (lint parser [] driftContent).Rejects "both" ∧
      ¬ Agrees parser [] driftContent := by
  intro parser
  have text : parser.replaceConstants driftContent = driftContent :=
    replaceConstants_plain _ (by decide +kernel)
  have loaded := oneDocument_loaded text
  have plain := plainKeyErrors_oneDocument driftContent driftDocument
  have mappings : ¬ ∃ other value, driftDocument.lookup other = some value ∧ ¬ IsMapping value := by
    rintro ⟨other,value,found,scalar⟩
    have finding := mem_bodyFindings.mpr ⟨other,value,found,scalar,rfl⟩
    cases finding
  have blocked : HasStepKey aboutStep := ⟨"declaration",by decide,by decide⟩
  have acted : HasStepKey bothStep := ⟨"log",by decide,by decide⟩
  refine ⟨?_,?_,?_,?_,?_,?_,?_⟩
  · exact ⟨_,rfl⟩
  · refine (rejects_lint_mapping loaded rfl).mpr ⟨?_,?_⟩
    · unfold HasStepKey
      decide
    · rintro (same | scalar)
      · exact absurd same (by decide)
      · exact mappings scalar
  · rfl
  · intro rejected
    exact ((rejects_lint_mapping loaded rfl).mp rejected).1 blocked
  · rfl
  · intro rejected
    exact ((rejects_lint_mapping loaded rfl).mp rejected).1 acted
  · intro agrees
    have single := (consistent_of_agrees loaded plain agrees).single "both" bothStep rfl
    exact absurd single (by decide)

end Documents

end Lint
end Ruuter
