import Ruuter.BaseFields
import Ruuter.GuardCoverage
import Ruuter.Lint
import Ruuter.NullAbsent
import Ruuter.Transitions

/-! What `check_dsl` promises about the runs of a file that it has no error for: where the jumps of a run
lead, and whether the targets of its template steps are loaded. -/
namespace Ruuter
open Lint

section Written

open Reader

theorem Layout.optional_string_inv (given : (Layout.optional name string).read { members } = some (some text)) :
    members.lookup name = some (.string text) := by
  apply (Source.values_eq_singleton { members } name).mp
  simp only [Layout.optional,Layout.field] at given
  split at given
  · cases given
  · rename_i value values
    rw [values]
    cases value with
    | string s =>
      cases given
      rfl
    | _ => cases given
  · cases given

/-- A `next:` that a step has was written. -/
theorem reader_next {v : Variant} {nested : Reader DslStep} {step : DslStep}
    (given : (v.reader buffered nested).read (.object members) = some step)
    (next : step.explicitNext = some target) : members.lookup "next" = some (.string target) := by
  by_cases kind : v = .declaration
  · subst kind
    obtain ⟨record,_,rfl⟩ := Option.map_eq_some_iff.mp given
    cases next
  · apply Layout.optional_string_inv
    rw [reader_optionalNext kind given,next]

theorem Yaml.eq_string_of_toJson (given : toJson floats y = some (.string text)) : y = .string text := by
  cases y with
  | string s =>
    cases given
    rfl
  | sequence items => simp [Yaml.toJson] at given
  | mapping members => simp [Yaml.toJson] at given
  | tagged tag value => simp [Yaml.toJson] at given
  | _ => cases given

/-- A text of the JSON form of a mapping is a text of the mapping. -/
theorem Yaml.get?_of_lookup (field : Yaml.isFieldName name = true)
    (converted : (Yaml.mapping m).toJson floats = some (.object members))
    (found : members.lookup name = some (.string text)) : Yaml.get? m name = some (.string text) := by
  rw [Yaml.lookup_mapping field converted] at found
  obtain ⟨y,held,text⟩ := Option.bind_eq_some_iff.mp found
  rw [held,Yaml.eq_string_of_toJson text]

theorem parseStep_next_inv {serde : Serde} (parsed : parseStep serde name (.mapping m) = .ok step)
    (next : step.explicitNext = some target) : (parsedStep m name).next = some target := by
  obtain ⟨v,json,_,converted,read,_⟩ := parseStep_iff.mp parsed
  obtain ⟨entries,_,rfl⟩ := Yaml.toJson_mapping converted
  have written := Yaml.get?_of_lookup (by decide) converted (reader_next read next)
  unfold parsedStep strField
  rw [written]
  rfl

/-- The linter takes a step for a `switch:`, unless a `declaration:` stands beside it. -/
theorem stepKind_switch (hint : variantHint name (keyPresent m) (strField m "call") (bareControl m) = .ok .switch)
    (alone : keyPresent m "declaration" = false) : stepKind m = "switch" := by
  obtain ⟨one,discriminates⟩ := (variantHint_iff name).mp hint
  have present : keyPresent m "switch" = true := by
    generalize kind : Variant.switch = v at discriminates
    cases discriminates with
    | key entry present =>
      subst kind
      have listed : ∀ entry ∈ keyVariants, entry.2 = .switch → entry.1 = "switch" := by decide
      rw [← listed _ entry rfl]
      exact present
    | _ => cases kind
  have absent : ∀ key ∈ stepKeys, key ≠ "switch" → keyPresent m key = false := by
    have actions : ∀ key ∈ stepKeys, key = "declaration" ∨ key ∈ actionStepKeys := by decide
    intro key member other
    rcases actions key member with rfl | action
    · exact alone
    · exact Bool.eq_false_iff.mpr fun given => other (only_action one action (by decide) given present)
  have found : stepKeys.find? (keyPresent m) = some "switch" := by
    have before : ∀ key ∈ stepKeys.takeWhile (· ≠ "switch"), key ∈ stepKeys ∧ key ≠ "switch" := by decide
    refine List.find?_eq_some_iff_append.mpr ⟨present,stepKeys.takeWhile (· ≠ "switch"),
      ["template","ws_send","ws_tag"],by decide,fun key member => ?_⟩
    rw [absent key (before key member).1 (before key member).2]
    rfl
  unfold stepKind
  rw [found]
  rfl

/-- The branches of a `switch:` as the file has them. -/
def writtenBranches (m : List (Yaml × Yaml)) : List Yaml :=
  match Yaml.get? m "switch" with
  | some (.sequence branches) => branches
  | _ => []

/-- The linter reads the branch of a `switch:` that is a mapping. -/
theorem branch_target (converted : (Yaml.mapping members).toJson floats = some j)
    (read : (Reader.struct condition).read j = some branch) :
    Yaml.get? members "next" = some (.string branch.next) := by
  obtain ⟨entries,_,rfl⟩ := Yaml.toJson_mapping converted
  simp only [Reader.struct,Source.ofJson,Option.bind_some,condition,Layout.ap_read,Layout.required_read,Layout.build,
    Option.some.injEq] at read
  obtain ⟨_,⟨_,rfl,_,_,rfl⟩,text,⟨value,found,string⟩,rfl⟩ := read
  apply Yaml.get?_of_lookup (by decide) converted
  cases value with
  | string s =>
    cases string
    exact found
  | _ => cases string

theorem mem_switchTargets {m members : List (Yaml × Yaml)} (inside : .mapping members ∈ writtenBranches m)
    (written : Yaml.get? members "next" = some (.string target)) : target ∈ switchTargets m := by
  unfold writtenBranches at inside
  unfold switchTargets
  cases given : Yaml.get? m "switch" with
  | none =>
    rw [given] at inside
    cases inside
  | some value =>
    rw [given] at inside
    cases value with
    | sequence branches =>
      refine List.mem_filterMap.mpr ⟨_,inside,?_⟩
      dsimp only
      rw [written]
    | _ => cases inside

/-- The linter reads the branches of a `switch:`, if they are mappings and no `declaration:` stands
beside it. -/
theorem parseStep_switch {serde : Serde} (parsed : parseStep serde name (.mapping m) = .ok (.switch s))
    (alone : keyPresent m "declaration" = false) (mappings : ∀ branch ∈ writtenBranches m, IsMapping branch) :
    ∀ branch ∈ s.switch, branch.next ∈ (parsedStep m name).switchTargets := by
  obtain ⟨v,json,hint,converted,read,_⟩ := parseStep_iff.mp parsed
  cases reader_variant read
  obtain ⟨entries,_,rfl⟩ := Yaml.toJson_mapping converted
  obtain ⟨record,layout,same⟩ := Option.map_eq_some_iff.mp read
  cases same
  simp only [Reader.flat,switchStep,Layout.ap_read,Layout.required_read,Layout.build,Option.some.injEq] at layout
  obtain ⟨_,⟨_,⟨_,rfl,branches,⟨value,found,listed⟩,rfl⟩,_,_,rfl⟩,_,_,rfl⟩ := layout
  rw [Yaml.lookup_mapping (by decide) converted] at found
  obtain ⟨y,written,sequence⟩ := Option.bind_eq_some_iff.mp found
  intro branch member
  have switches : (parsedStep m name).switchTargets = switchTargets m := if_pos (stepKind_switch hint alone)
  rw [switches]
  cases value with
  | array items =>
    obtain ⟨item,inside,given⟩ := (mem_mapM listed).2 branch member
    cases y with
    | sequence parts =>
      simp only [Yaml.toJson,Option.map_eq_some_iff,Json.array.injEq,exists_eq_right] at sequence
      obtain ⟨part,there,partJson⟩ := Yaml.item_of_toJson sequence inside
      have held : part ∈ writtenBranches m := by
        unfold writtenBranches
        rw [written]
        exact there
      obtain ⟨members,rfl⟩ := mappings part held
      exact mem_switchTargets held (branch_target partJson given)
    | mapping members => simp [Yaml.toJson] at sequence
    | tagged tag value => simp [Yaml.toJson] at sequence
    | _ => cases sequence
  | _ => cases listed

end Written

namespace Lint

/-- `check_dsl` is run on a file and has no error for it. -/
structure Passes (parser : DslParser) (dslKeys : List String) (raw : String) (file : ParsedFile) : Prop where
  read : parseFile parser true raw = .ok file
  clean : ∀ item ∈ (checkDsl file parser dslKeys {}).items, item.severity ≠ .error

section Passes
variable {parser : DslParser} {dslKeys : List String} {raw : String} {file : ParsedFile}

/-- The steps of a parsed file are the mappings of its document. -/
theorem mem_steps (loaded : parser.serde.yaml (parser.replaceConstants raw) = .ok map)
    (read : parseFile parser true raw = .ok file) {step : ParsedStep} :
    step ∈ file.steps ↔ ∃ name m, map.lookup name = some (.mapping m) ∧ step = parsedStep m name := by
  simp only [parseFile,loaded,if_true] at read
  split at read
  · cases read
  · cases read
    simp only [List.mem_map,Prod.exists,mem_mappings,eq_comm]

/-- A file without errors has the targets that the linter reads. -/
theorem Passes.target_known (passes : Passes parser dslKeys raw file) {step : ParsedStep} (member : step ∈ file.steps)
    (reads : step.next = some target ∨ target ∈ step.switchTargets) (other : target ≠ "end") :
    ∃ known ∈ file.steps, known.name = target := by
  by_contra missing
  have dangling : (target ≠ "end" && !file.steps.any (·.name = target)) = true := by
    simp only [Bool.and_eq_true,decide_eq_true_eq,Bool.not_eq_true',List.any_eq_false]
    exact ⟨other,fun known inside same => missing ⟨known,inside,same⟩⟩
  have found : ∃ finding, finding ∈ danglingTargets file := by
    rcases reads with next | branch
    · refine ⟨.danglingNext step.name target,List.mem_flatMap.mpr ⟨step,member,List.mem_append_left _ ?_⟩⟩
      exact List.mem_map.mpr ⟨target,List.mem_filter.mpr ⟨by simp [next],dangling⟩,rfl⟩
    · refine ⟨.danglingBranch step.name target,List.mem_flatMap.mpr ⟨step,member,List.mem_append_right _ ?_⟩⟩
      exact List.mem_map.mpr ⟨target,List.mem_filter.mpr ⟨branch,dangling⟩,rfl⟩
  obtain ⟨finding,dangles⟩ := found
  have clean := passes.clean
  unfold checkDsl at clean
  dsimp only at clean
  split at clean
  · exact clean ⟨.error,.noExecutableSteps⟩ (mem_fileErrors.mpr (.inr ⟨_,List.mem_singleton_self _,rfl⟩)) rfl
  · refine clean ⟨.error,finding⟩ ?_ rfl
    simp only [mem_fileErrors,mem_fileWarnings]
    exact .inl (.inl (.inl (.inr ⟨finding,dangles,rfl⟩)))

end Passes
end Lint

namespace DslLoader

/-- The tree has a file that is loaded as a route of a project. -/
def HasRoute (loader : DslLoader) (root : Listing) (project method key : String) : Prop :=
  ∃ entries place file dirs, root.dir? project = some entries ∧ loader.RouteFile entries place file ∧
    ScannedAt place file dirs ∧ place.1 = method ∧ buildDslKey dirs file.name method = key

/-- The engine finds a route that the tree has a file for. -/
theorem HasRoute.loaded {loader : DslLoader} (has : loader.HasRoute root project method key) (named : root.WellNamed)
    (accepted : loader.loadEverything root = .ok out) : lookupDsl out.http project method key ≠ none := by
  obtain ⟨entries,place,file,dirs,held,route,scanned,rfl,rfl⟩ := has
  obtain ⟨site,found,dsl,loaded,read,_,finds,member⟩ :=
    fileItem_read named accepted held route.inside route.below route.processed scanned
  unfold fileItem at read
  rw [route.classified] at read
  obtain ⟨_,_,made⟩ := Eff.except_bind_inv read
  cases made
  intro missing
  exact Assoc.latest_ne_none member ((finds _).symm.trans missing)

end DslLoader

section References
variable (h : Host) (execute : DslStep → Ctx → M StepResult) (dsl : Dsl) (ctx : Ctx)

/-- The step of a round leads to a step that does not exist. -/
def Round.Dangles (a : Round) : Prop :=
  ∃ name step result t target, a.Dispatches h dsl name step ∧
    perform execute ctx name step (a.slept step) = (.ok result,t) ∧ result.shouldReturn = false ∧
    result.nextStep = some target ∧ target ≠ "end" ∧ target ∉ dsl.stepNames

/-- The method under which a template step looks its key up. -/
def templateMethod (t : TemplateStep) : String := h.uppercase (t.requestType.getD "GET")

/-- The target of a template step is not in the tree when the step is executed. -/
def TemplateMissing (t : TemplateStep) (s : St) : Prop :=
  ∃ dsls, h.loadDsls s.clock = some dsls ∧ lookupDsl dsls ctx.project (templateMethod h t) (templateKey h t) = none

/-- A template step that a step is, or that is nested in its bodies. -/
def DslStep.Includes (step : DslStep) (t : TemplateStep) : Prop :=
  step = .template t ∨ (DslStep.template t).Within step

/-- A round makes no jump into nothing, and no template step that it runs misses its target. -/
structure Round.Resolves (a : Round) : Prop where
  jump : ¬ a.Dangles h execute dsl ctx
  template : ∀ name step t, a.Dispatches h dsl name step → step.Includes t → ∀ s, ¬ TemplateMissing h ctx t s

/-- The references of a step that the linter does not check are no dangling ones: its `error:`, the branches
of a `switch:` that it does not read, and the files of its template steps. -/
structure UnreadResolve (loader : DslLoader) (root : Listing) (m : List (Yaml × Yaml)) (step : DslStep) : Prop where
  error : ∀ s target, step = .http s → s.error = some target → target = "end" ∨ target ∈ dsl.stepNames
  branch : ∀ s, step = .switch s →
    keyPresent m "declaration" = true ∨ (∃ branch ∈ writtenBranches m, ¬ IsMapping branch) →
    ∀ branch ∈ s.switch, branch.next = "end" ∨ branch.next ∈ dsl.stepNames
  template : ∀ t, step.Includes t → loader.HasRoute root ctx.project (templateMethod h t) (templateKey h t)

end References

section Resolution
variable {h : Host} {execute : DslStep → Ctx → M StepResult} {dsl : Dsl} {ctx : Ctx} {a : Round}

theorem perform_ok_inv {step : DslStep} (performed : perform execute ctx name step s = (.ok result,t))
    (moves : result.nextStep = some target) : execute step ctx s = (.ok result,t) := by
  by_cases skipped : step.base.skip.getD false = true
  · unfold perform at performed
    rw [if_pos skipped] at performed
    cases performed
    cases moves
  · exact performed_inv skipped performed

/-- A round fails when its step fails, and when the step leads to one that does not exist. -/
theorem takeStep_fails_iff (dispatched : a.Dispatches h dsl name step) :
    (∃ e t, takeStep execute dsl ctx name step a.index a.state = (.error e,t)) ↔
      (∃ e t, perform execute ctx name step (a.slept step) = (.error e,t)) ∨ a.Dangles h execute dsl ctx := by
  rcases performed : perform execute ctx name step (a.slept step) with ⟨e | result,t⟩
  · exact iff_of_true ⟨_,_,takeStep_error performed⟩ (.inl ⟨e,t,rfl⟩)
  · have failing : (∃ e u, takeStep execute dsl ctx name step a.index a.state = (.error e,u)) ↔
        result.shouldReturn = false ∧ ∃ target, result.nextStep = some target ∧ target ≠ "end" ∧
          target ∉ dsl.stepNames := by
      cases stays : result.shouldReturn with
      | true =>
        have ended : takeStep execute dsl ctx name step a.index a.state = (.ok (.stop (.returned result)),t) := by
          refine (Eff.bind_eq_ok (sleepFor_eq _ _)).trans ((Eff.bind_eq_ok performed).trans ?_)
          rw [stays]
          rfl
        rw [ended]
        exact iff_of_false (by rintro ⟨e,u,failed⟩; cases failed) (by rintro ⟨impossible,_⟩; cases impossible)
      | false =>
        rw [takeStep_stays performed stays]
        cases result.nextStep with
        | none => exact iff_of_false (by rintro ⟨e,u,failed⟩; cases failed) (by rintro ⟨_,_,next,_⟩; cases next)
        | some target =>
          simp only [true_and,Option.some.injEq,exists_eq_left']
          by_cases last : target = "end"
          · subst last
            exact iff_of_false (by rintro ⟨e,u,failed⟩; cases failed) fun missing => missing.1 rfl
          · by_cases present : target ∈ dsl.stepNames
            · obtain ⟨place,_,goes⟩ : ∃ place, _ ∧ followNext dsl name a.index (some target)
                  (triggerReload step.base t).2 = (.ok (.goto place),(triggerReload step.base t).2) :=
                followNext_goes present last _
              rw [goes]
              exact iff_of_false (by rintro ⟨e,u,failed⟩; cases failed) fun missing => missing.2 present
            · obtain ⟨e,failed⟩ : ∃ e, followNext dsl name a.index (some target)
                  (triggerReload step.base t).2 = (.error e,(triggerReload step.base t).2) :=
                followNext_fails present last _
              rw [failed]
              exact iff_of_true ⟨e,_,rfl⟩ ⟨last,present⟩
    rw [failing]
    constructor
    · rintro ⟨stays,target,next,other,missing⟩
      exact .inr ⟨name,step,result,t,target,dispatched,performed,stays,next,other,missing⟩
    · rintro (⟨e,u,failed⟩ | ⟨name',step',result',u,target,again,given,stays,next,other,missing⟩)
      · cases failed
      · cases dispatched.named.symm.trans again.named
        cases dispatched.held.symm.trans again.held
        cases performed.symm.trans given
        exact ⟨stays,target,next,other,missing⟩

/-- A template step whose target is missing fails for that reason. -/
theorem executeTemplate_missing {engine : Engine} {t : TemplateStep} (missing : TemplateMissing h ctx t s) : ∃ u,
    executeTemplate h engine ctx t s = (.error (.fileNotFound ("template not found: " ++ templateKey h t ++
      " (project=" ++ ctx.project ++ ")")),u) := by
  obtain ⟨dsls,given,absent⟩ := missing
  have asked : consult h.loadDsls s = (.ok (some dsls),{ s with clock := s.clock + 1 }) := by
    unfold consult
    rw [given]
  refine ⟨{ s with clock := s.clock + 1 },(Eff.bind_eq_ok asked).trans ?_⟩
  unfold templateKey templateMethod at absent
  dsimp only
  rw [absent]
  rfl

section Accepted
variable {loader : DslLoader} {root : Listing} {out : LoadedProjects} {dslKeys : List String} {raw : String}
  {file : ParsedFile}

/-- The step of a loaded document as it was written. -/
theorem written_of_getStep {parser : DslParser} (loaded : parser.parseContent raw = .ok dsl)
    (held : dsl.getStep name = some step) : ∃ yaml m, parser.serde.yaml (parser.replaceConstants raw) = .ok yaml ∧
      yaml.lookup name = some (.mapping m) ∧ parseStep parser.serde name (.mapping m) = .ok step := by
  obtain ⟨yaml,read,parsed,_⟩ := DslParser.accepted_inv loaded
  obtain ⟨value,found,given⟩ := Assoc.lookup_traverse_inv parsed held
  cases value with
  | mapping m => exact ⟨yaml,m,read,found,given⟩
  | _ => cases given

/-- The steps that the linter sees are steps of the loaded DSL. -/
theorem mem_stepNames_of_known {parser : DslParser} (loaded : parser.parseContent raw = .ok dsl)
    (passes : Passes parser dslKeys raw file) {known : ParsedStep} (member : known ∈ file.steps) :
    known.name ∈ dsl.stepNames := by
  obtain ⟨yaml,read,parsed,_⟩ := DslParser.accepted_inv loaded
  obtain ⟨name,m,found,rfl⟩ := (mem_steps read passes.read).mp member
  obtain ⟨step,_,stored⟩ := Assoc.lookup_traverse parsed found
  exact AList.lookup_isSome.mp (Option.isSome_iff_exists.mpr ⟨step,stored⟩)

/-- In a run of a file without errors whose steps have no dangling references among those that the linter
does not check, no jump dangles and no template is missing. -/
theorem references_resolve (loader : DslLoader) (named : root.WellNamed)
    (accepted : loader.loadEverything root = .ok out)
    (passes : Passes loader.parser dslKeys raw file) (loaded : loader.parser.parseContent raw = .ok dsl) (h : Host)
    (tree : ∀ now, h.loadDsls now = some out.http) (fuel : Nat) (ctx : Ctx) (s : St)
    (unread : ∀ a name step yaml m, RoundOf h (engine h fuel).step dsl ctx s a → a.Dispatches h dsl name step →
      loader.parser.serde.yaml (loader.parser.replaceConstants raw) = .ok yaml →
      yaml.lookup name = some (.mapping m) → UnreadResolve h dsl ctx loader root m step) :
    ∀ a, RoundOf h (engine h fuel).step dsl ctx s a → a.Resolves h (engine h fuel).step dsl ctx := by
  intro a reached
  constructor
  · rintro ⟨name,step,result,t,target,dispatched,performed,stays,next,other,missing⟩
    obtain ⟨yaml,m,read,found,parsed⟩ := written_of_getStep loaded dispatched.held
    have resolve := unread a name step yaml m reached dispatched read found
    have seen : parsedStep m name ∈ file.steps := (mem_steps read passes.read).mpr ⟨name,m,found,rfl⟩
    -- What the linter reads is a step of the file, and so of the DSL.
    have known (reads : (parsedStep m name).next = some target ∨ target ∈ (parsedStep m name).switchTargets) :
        False := by
      obtain ⟨known,member,rfl⟩ := passes.target_known seen reads other
      exact missing (mem_stepNames_of_known loaded passes member)
    obtain ⟨returned,_⟩ | rfl | ⟨redirect,listed,rfl⟩ :=
      engine_step_gives h fuel step ctx _ _ _ (perform_ok_inv performed next)
    · rw [stays] at returned
      cases returned
    · exact known (.inl (parseStep_next_inv parsed next))
    · cases next
      cases step with
      | http s =>
        rcases resolve.error s target rfl (Option.mem_toList.mp listed) with last | present
        · exact other last
        · exact missing present
      | «switch» s =>
        obtain ⟨branch,member,rfl⟩ := List.mem_map.mp listed
        by_cases blind : keyPresent m "declaration" = true ∨ ∃ branch ∈ writtenBranches m, ¬ IsMapping branch
        · rcases resolve.branch s rfl blind branch member with last | present
          · exact other last
          · exact missing present
        · rw [not_or] at blind
          refine known (.inr (parseStep_switch parsed (Bool.eq_false_iff.mpr blind.1) ?_ branch member))
          intro branch inside
          by_contra shape
          exact blind.2 ⟨branch,inside,shape⟩
      | _ => cases listed
  · rintro name step t dispatched includes s' ⟨dsls,given,absent⟩
    obtain ⟨yaml,m,read,found,_⟩ := written_of_getStep loaded dispatched.held
    have placed := (unread a name step yaml m reached dispatched read found).template t includes
    cases (tree s'.clock).symm.trans given
    exact placed.loaded named accepted absent

end Accepted
end Resolution

section Ask

/-- Where the `error:` of a call leads: to the end of the run or to no step. -/
def askTarget : Bool → String
  | true => "end"
  | false => "ghost"

variable (ends : Bool)

/-- A file with one call. -/
def askContent : String := "ask:\n  call: http.get\n  args:\n    url: down\n  error: " ++ askTarget ends ++ "\n"

def askDocument : StringMap Yaml :=
  AList.singleton "ask" (.mapping [(.string "call",.string "http.get"),
    (.string "args",.mapping [(.string "url",.string "down")]),(.string "error",.string (askTarget ends))])

def askStep : DslStep := .http { call := "http.get", args := { url := "down" }, error := some (askTarget ends) }

def askDsl : Dsl where
  steps := AList.singleton "ask" (askStep ends)

def askLoader : DslLoader where
  parser := DslParser.oneDocument (askContent ends) (askDocument ends)
  configPath := "DSL"

def askTree : Listing := .dir "shop" (.dir "GET" (.file "ask.yml" (.ok (askContent ends)) .nil) .nil) .nil

theorem ask_loaded : (askLoader ends).parser.serde.yaml ((askLoader ends).parser.replaceConstants (askContent ends)) =
    .ok (askDocument ends) :=
  DslParser.oneDocument_loaded (DslParser.replaceConstants_plain _ (by cases ends <;> decide +kernel))

theorem ask_parsed : (askLoader ends).parser.parseContent (askContent ends) = .ok (askDsl ends) := by
  rw [DslParser.parseContent_loaded (ask_loaded ends)]
  cases ends <;> rfl

theorem askTree_wellNamed : (askTree ends).WellNamed := by
  have names : ∀ name ∈ ["shop","GET","ask.yml"], Listing.IsFileName name := by
    intro name member
    simp only [List.mem_cons,List.not_mem_nil,or_false] at member
    rcases member with rfl | rfl | rfl <;> exact ⟨by decide,by decide,by decide,by decide +kernel⟩
  exact ⟨names _ (by simp),by simp [Listing.names],⟨names _ (by simp),by simp [Listing.names],
    ⟨names _ (by simp),by simp [Listing.names],trivial⟩,trivial⟩,trivial⟩

/-- The loader accepts the tree of the file. -/
theorem ask_accepted : ∃ out, (askLoader ends).loadEverything (askTree ends) = .ok out := by
  refine (DslLoader.loadEverything_ok_iff (askTree_wellNamed ends)).mpr
    ⟨[(.route "shop" "GET" "GET/ask",askDsl ends)],?_⟩
  have item : (askLoader ends).fileItem "GET" "DSL/shop/GET" [] "ask.yml" (.ok (askContent ends)) =
      .ok (.route "GET/ask",askDsl ends) := by
    unfold DslLoader.fileItem DslLoader.parseFile
    rw [if_neg (by decide +kernel)]
    dsimp only
    rw [ask_parsed ends,show buildDslKey [] "ask.yml" "GET" = "GET/ask" by decide +kernel]
    rfl
  have processed : (askLoader ends).isProcessableFile "ask.yml" = true := by
    show (⟨DslParser.oneDocument "" ∅,"DSL",[".yml",".yaml"]⟩ : DslLoader).isProcessableFile "ask.yml" = true
    decide +kernel
  have scanned : (askLoader ends).scanItems "GET" "DSL/shop/GET" [] (.file "ask.yml" (.ok (askContent ends)) .nil) =
      [.ok (.route "GET/ask",askDsl ends)] := by
    rw [DslLoader.scanItems,if_pos processed,item]
    rfl
  have method : (askLoader ends).subdirItems "DSL/shop" "shop" "GET" (.file "ask.yml" (.ok (askContent ends)) .nil) =
      ((askLoader ends).scanItems "GET" "DSL/shop/GET" [] (.file "ask.yml" (.ok (askContent ends)) .nil)).map
        (·.map fun item => (item.1.slot "shop" "GET",item.2)) := by
    rfl
  unfold Eff.AllOk askTree
  simp only [DslLoader.items,DslLoader.projectItems,DslLoader.subdirsItems,List.append_nil]
  rw [show (askLoader ends).configPath ++ "/" ++ "shop" = "DSL/shop" from rfl,method,scanned]
  rfl

/-- What the linter makes of the file. -/
def askFile : ParsedFile where
  entryStep := some "ask"
  steps := [{ name := "ask", kind := "call", next := none, switchTargets := [] }]
  raw := askContent ends
  templateTargets := []
  hasProxyDeclaration := false

theorem ask_read : Lint.parseFile (askLoader ends).parser true (askContent ends) = .ok (askFile ends) := by
  unfold Lint.parseFile
  rw [ask_loaded ends]
  rfl

theorem ask_passes : Passes (askLoader ends).parser ["shop/GET/ask"] (askContent ends) (askFile ends) := by
  refine ⟨ask_read ends,?_⟩
  cases ends <;> decide +kernel

/-- The upstream of the call is down. -/
def askHost (out : LoadedProjects) : Host where
  loadDsls _ := some out.http
  request _ _ := .ok { status := 0, error := some "connect" }

/-- The linter has no error for the file, and the call that fails jumps into nothing. -/
theorem error_target_unchecked :
    ∃ out, (askLoader false).loadEverything (askTree false) = .ok out ∧
      (askLoader false).parser.parseContent (askContent false) = .ok (askDsl false) ∧
      Passes (askLoader false).parser ["shop/GET/ask"] (askContent false) (askFile false) ∧
      (∃ a, RoundOf (askHost out) (engine (askHost out) 1).step (askDsl false) { project := "shop" } {} a ∧
        a.Dangles (askHost out) (engine (askHost out) 1).step (askDsl false) { project := "shop" }) ∧
      ∃ e t, runToEnd (askHost out) (engine (askHost out) 1).step (askDsl false) { project := "shop" } {} =
        (.error e,t) := by
  obtain ⟨out,accepted⟩ := ask_accepted false
  have room : 0 < (askHost out).maxIterations.toNat := Nat.zero_lt_succ 9999
  have dispatched : (firstRound (askHost out) (askDsl false) {}).Dispatches (askHost out) (askDsl false) "ask"
      (askStep false) := ⟨room,rfl,rfl,room⟩
  refine ⟨out,accepted,ask_parsed false,ask_passes false,⟨_,.refl,"ask",askStep false,_,_,"ghost",dispatched,rfl,rfl,rfl,
    by decide,by decide⟩,_,_,rfl⟩

/-- With `error: end` no round of any run does. -/
theorem error_end_resolves :
    ∃ out, (askLoader true).loadEverything (askTree true) = .ok out ∧
      ∀ a, RoundOf (askHost out) (engine (askHost out) 1).step (askDsl true) { project := "shop" } {} a →
        a.Resolves (askHost out) (engine (askHost out) 1).step (askDsl true) { project := "shop" } := by
  obtain ⟨out,accepted⟩ := ask_accepted true
  refine ⟨out,accepted,references_resolve (askLoader true) (askTree_wellNamed true) accepted (ask_passes true)
    (ask_parsed true) (askHost out) (fun _ => rfl) 1 { project := "shop" } {} ?_⟩
  intro a name step yaml m _ dispatched _ _
  have held := AList.mem_lookup_iff.mp dispatched.held
  cases List.mem_singleton.mp held
  refine ⟨?_,?_,?_⟩
  · intro s target same given
    cases same
    cases given
    exact .inl rfl
  · intro s same
    cases same
  · intro t includes
    rcases includes with same | within
    · cases same
    · cases within with
      | body member => cases member
      | deeper member => cases member

end Ask
end Ruuter
