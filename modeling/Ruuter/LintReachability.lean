import Ruuter.DanglingReferences
import Ruuter.Lib.Closure
import Ruuter.LoopCaps

/-! The reachability check of `dsl-lint` (`walk_reachable` of `src/bin/dsl_lint.rs`) against the runs of the
engine: which ways from one step to another the walk knows. -/
namespace Ruuter
open Lint

namespace Lint

section Walk
variable {steps : List ParsedStep} {start name : String} {out : List String} {n k : Nat}

/-- The names that are written at a step. -/
def targetsOf (steps : List ParsedStep) (start : String) : List String :=
  match steps.find? (·.name = start) with
  | none => []
  | some step => step.next.toList.filter (· ≠ "end") ++ step.switchTargets.filter (· ≠ "end")

/-- The name of the step below, for a step without a `next:`. -/
def belowOf (steps : List ParsedStep) (start : String) : List String :=
  match steps.dropWhile (·.name ≠ start) with
  | step :: below :: _ => if step.next = none ∧ step.kind ≠ "return" then [below.name] else []
  | _ => []

/-- Where the walk goes from a name. -/
def successors (steps : List ParsedStep) (start : String) : List String := targetsOf steps start ++ belowOf steps start

/-- The walk is a depth-first search. -/
theorem walkReachable_eq (steps : List ParsedStep) (n : Nat) (start : String) (out : List String) :
    walkReachable steps n start out = Closure.visit (successors steps) n start out := by
  induction n generalizing start out with
  | zero => rfl
  | succ n ih =>
    have same : walkReachable steps n = Closure.visit (successors steps) n := by
      funext start out
      exact ih start out
    unfold walkReachable Closure.visit
    have stays : ∀ a mid, a ∈ mid → Closure.visit (successors steps) n a mid = mid :=
      fun a mid seen => Closure.visit_of_mem seen n
    rw [same]
    generalize Closure.visit (successors steps) n = go at stays
    by_cases visited : start ∈ out
    · rw [if_pos visited,if_pos visited]
    · rw [if_neg visited,if_neg visited,successors,List.foldl_append]
      dsimp only
      unfold targetsOf belowOf
      generalize steps.find? (·.name = start) = found
      generalize steps.dropWhile (·.name ≠ start) = list
      have below : ∀ mid : List String, (match list with
          | step :: below :: _ =>
            if below.name ∉ mid ∧ step.next = none ∧ step.kind ≠ "return" then go below.name mid else mid
          | _ => mid) = (match list with
          | step :: below :: _ => if step.next = none ∧ step.kind ≠ "return" then [below.name] else []
          | _ => []).foldl (fun out t => go t out) mid := by
        intro mid
        rcases list with _ | ⟨step,_ | ⟨below,rest⟩⟩
        · rfl
        · rfl
        · dsimp only
          by_cases goes : step.next = none ∧ step.kind ≠ "return"
          · rw [if_pos goes]
            by_cases seen : below.name ∈ mid
            · rw [if_neg fun both => both.1 seen]
              exact (stays below.name mid seen).symm
            · rw [if_pos ⟨seen,goes⟩]
              rfl
          · rw [if_neg goes,if_neg fun both => goes both.2]
            rfl
      cases found with
      | none => exact below _
      | some step =>
        dsimp only
        rw [List.foldl_append]
        exact below _

/-- Every name that stands in the steps. -/
def namesIn (steps : List ParsedStep) : List String :=
  steps.flatMap fun step => step.name :: (step.next.toList ++ step.switchTargets)

theorem mem_namesIn {step : ParsedStep} (member : step ∈ steps) (written : name = step.name ∨ step.next = some name ∨
    name ∈ step.switchTargets) : name ∈ namesIn steps := by
  refine List.mem_flatMap.mpr ⟨step,member,?_⟩
  rcases written with rfl | next | branch
  · exact List.mem_cons_self
  · exact List.mem_cons_of_mem _ (List.mem_append_left _ (by simp [next]))
  · exact List.mem_cons_of_mem _ (List.mem_append_right _ branch)

theorem successors_subset (steps : List ParsedStep) (start : String) : successors steps start ⊆ namesIn steps := by
  intro name member
  rcases List.mem_append.mp member with written | below
  · unfold targetsOf at written
    split at written
    · cases written
    · rename_i step found
      have inside := List.mem_of_find?_eq_some found
      rcases List.mem_append.mp written with next | branch
      · exact mem_namesIn inside (.inr (.inl (Option.mem_toList.mp (List.mem_filter.mp next).1)))
      · exact mem_namesIn inside (.inr (.inr (List.mem_filter.mp branch).1))
  · unfold belowOf at below
    split at below
    · rename_i step next rest shape
      split at below
      · obtain rfl := List.mem_singleton.mp below
        have inside : next ∈ steps.dropWhile (·.name ≠ start) := by
          rw [shape]
          exact List.mem_cons_of_mem _ (List.mem_cons_self ..)
        exact mem_namesIn ((List.dropWhile_sublist _).subset inside) (.inl rfl)
      · cases below
    · cases below

theorem length_namesIn (steps : List ParsedStep) :
    (namesIn steps).length ≤ (steps.map fun step => 2 + step.switchTargets.length).sum := by
  induction steps with
  | nil => exact Nat.le_refl 0
  | cons step rest ih =>
    have own : step.next.toList.length ≤ 1 := by cases step.next <;> simp
    unfold namesIn at ih ⊢
    simp only [List.flatMap_cons,List.length_append,List.length_cons,List.map_cons,List.sum_cons]
    omega

/-- The names that the walk reaches from an entry. -/
def reached (file : ParsedFile) (entry : String) : List String :=
  walkReachable file.steps (1 + (file.steps.map fun step => 2 + step.switchTargets.length).sum) entry []

/-- The walk is deep enough for every path. -/
theorem mem_reached {file : ParsedFile} {step : ParsedStep} (entry : step ∈ file.steps)
    (path : Relation.ReflTransGen (fun a b => b ∈ successors file.steps a) step.name name) :
    name ∈ reached file step.name := by
  have room := length_namesIn file.steps
  rw [reached,walkReachable_eq]
  exact Closure.visit_reaches (fun a _ => successors_subset file.steps a) (mem_namesIn entry (.inl rfl)) (by omega) path

/-- What is reached is not reported. -/
theorem not_unreachable {file : ParsedFile} (given : file.entryStep = some entry) (inside : name ∈ reached file entry) :
    .unreachable name entry ∉ unreachableSteps file := by
  unfold unreachableSteps
  rw [given]
  intro member
  obtain ⟨step,listed,same⟩ := List.mem_map.mp member
  cases same
  have out := (List.mem_filter.mp listed).2
  simp only [Bool.and_eq_true,decide_eq_true_eq] at out
  exact out.1 inside

/-- Where the walk goes from a step, by the step below it. -/
def GoesTo (p : ParsedStep) (below : Option String) (target : String) : Prop :=
  (target ≠ "end" ∧ (p.next = some target ∨ target ∈ p.switchTargets)) ∨
    (p.next = none ∧ p.kind ≠ "return" ∧ below = some target)

theorem mem_successors {p : ParsedStep} {below : Option String} {target : String} (nodup : (steps.map (·.name)).Nodup)
    (here : steps[k]? = some p) (next : steps[k + 1]?.map (·.name) = below) (goes : GoesTo p below target) :
    target ∈ successors steps p.name := by
  have found : steps.find? (·.name = p.name) = some p ∧ steps.dropWhile (·.name ≠ p.name) = steps.drop k := by
    clear next goes
    induction steps generalizing k with
    | nil => cases here
    | cons head rest ih =>
      obtain ⟨absent,nodup⟩ := List.nodup_cons.mp nodup
      cases k with
      | zero =>
        cases here
        simp
      | succ k =>
        have below : rest[k]? = some p := here
        have other : head.name ≠ p.name :=
          fun same => absent (List.mem_map.mpr ⟨p,List.mem_of_getElem? below,same.symm⟩)
        obtain ⟨found,dropped⟩ := ih nodup below
        exact ⟨by simpa [other] using found,by simpa [other] using dropped⟩
  obtain ⟨found,dropped⟩ := found
  rcases goes with ⟨other,written⟩ | ⟨bare,kind,rfl⟩
  · refine List.mem_append_left _ ?_
    unfold targetsOf
    rw [found]
    dsimp only
    rcases written with named | branch
    · exact List.mem_append_left _ (List.mem_filter.mpr ⟨by simp [named],decide_eq_true other⟩)
    · exact List.mem_append_right _ (List.mem_filter.mpr ⟨branch,decide_eq_true other⟩)
  · refine List.mem_append_right _ ?_
    obtain ⟨follower,at',rfl⟩ := Option.map_eq_some_iff.mp next
    obtain ⟨left,current⟩ := List.getElem?_eq_some_iff.mp here
    obtain ⟨right,later⟩ := List.getElem?_eq_some_iff.mp at'
    have shape : steps.drop k = p :: follower :: steps.drop (k + 2) := by
      rw [List.drop_eq_getElem_cons left,List.drop_eq_getElem_cons right,current,later]
    unfold belowOf
    rw [dropped,shape]
    dsimp only
    rw [if_pos ⟨bare,kind⟩]
    exact List.mem_singleton_self _

end Walk

section File
variable {parser : DslParser} {raw : String} {dsl : Dsl} {file : ParsedFile} {yaml : StringMap Yaml} {name : String} {k : Nat}

/-- The values of a document whose steps were parsed are mappings. -/
theorem mappings_of_parsed (parsed : parseSteps parser.serde yaml = .ok dsl.steps) :
    ∀ entry ∈ yaml.entries, ∃ m, entry.2 = .mapping m := by
  intro entry member
  obtain ⟨_,_,_,given⟩ := Assoc.exists_of_forall₂ (Assoc.traverse_pairs parsed) member
  cases held : entry.2 with
  | mapping m => exact ⟨m,rfl⟩
  | _ =>
    rw [held] at given
    cases given

theorem keys_of_parsed (parsed : parseSteps parser.serde yaml = .ok dsl.steps) : dsl.stepNames = yaml.keys := by
  have pairs := Assoc.traverse_pairs parsed
  unfold Dsl.stepNames AList.keys List.keys
  generalize yaml.entries = before,dsl.steps.entries = after at pairs
  induction pairs with
  | nil => rfl
  | cons pair _ ih =>
    rw [List.map_cons,List.map_cons,pair.1,ih]

theorem names_of_mappings {entries : List (Sigma fun _ : String => Yaml)}
    (mappings : ∀ entry ∈ entries, ∃ m, entry.2 = .mapping m) :
    (entries.filterMap mappingEntry).map (·.1) = entries.map (·.1) := by
  induction entries with
  | nil => rfl
  | cons entry rest ih =>
    obtain ⟨name,value⟩ := entry
    obtain ⟨m,rfl⟩ := mappings _ (List.mem_cons_self ..)
    have later := ih fun entry member => mappings entry (List.mem_cons_of_mem _ member)
    simpa [mappingEntry] using later

/-- The linter and the engine see the same steps in the same order, and start with the same one. -/
theorem steps_of_accepted (accepted : parser.parseContent raw = .ok dsl) (read : parseFile parser true raw = .ok file) :
    file.steps.map (·.name) = dsl.stepNames ∧ file.entryStep = dsl.stepNames.head? := by
  obtain ⟨yaml,loaded,parsed,_⟩ := DslParser.accepted_inv accepted
  have mappings := mappings_of_parsed parsed
  simp only [parseFile,loaded,if_true] at read
  split at read
  · cases read
  · cases read
    constructor
    · rw [keys_of_parsed parsed]
      refine Eq.trans ?_ (names_of_mappings mappings)
      rw [List.map_map]
      rfl
    · rw [keys_of_parsed parsed]
      unfold AList.keys List.keys
      cases held : yaml.entries with
      | nil => rfl
      | cons entry rest =>
        obtain ⟨name,value⟩ := entry
        obtain ⟨m,rfl⟩ := mappings _ (by rw [held]; exact List.mem_cons_self ..)
        rfl

/-- The step of a name as the linter has it. -/
theorem parsed_at (accepted : parser.parseContent raw = .ok dsl) (read : parseFile parser true raw = .ok file)
    (loaded : parser.serde.yaml (parser.replaceConstants raw) = .ok yaml) (named : dsl.stepNames[k]? = some name) :
    ∃ m, yaml.lookup name = some (.mapping m) ∧ file.steps[k]? = some (parsedStep m name) := by
  rw [← (steps_of_accepted accepted read).1,List.getElem?_map] at named
  obtain ⟨p,here,rfl⟩ := Option.map_eq_some_iff.mp named
  obtain ⟨name,m,found,rfl⟩ := (mem_steps loaded read).mp (List.mem_of_getElem? here)
  exact ⟨m,found,here⟩

end File

end Lint

section Ways
variable (h : Host) (execute : DslStep → Ctx → M StepResult) (dsl : Dsl) (ctx : Ctx)

/-- The branches of a `switch:` that the linter does not read. -/
def UnreadBranches (m : List (Yaml × Yaml)) : Prop :=
  keyPresent m "declaration" = true ∨ ∃ branch ∈ writtenBranches m, ¬ IsMapping branch

/-- The ways on that the walk does not know of, where the round takes one, lead where the walk goes too: to
the step below a step that is passed over, skipped or a declaration, to an `error:`, and to an unread branch. -/
structure Round.Foreseen (a : Round) (name : String) (step : DslStep) (m : List (Yaml × Yaml)) : Prop where
  falls : (perStepCap step h.maxIterations).toNat ≤ a.count name ∨ step.base.skip = some true ∨ declares m = true →
    ∀ below, dsl.stepNames[a.index + 1]? = some below → GoesTo (parsedStep m name) (some below) below
  error : ∀ s target result t, step = .http s → s.error = some target →
    perform execute ctx name step (a.slept step) = (.ok result,t) → result.nextStep = some target → target ≠ "end" →
    GoesTo (parsedStep m name) dsl.stepNames[a.index + 1]? target
  branch : ∀ s target result t, step = .switch s → UnreadBranches m →
    perform execute ctx name step (a.slept step) = (.ok result,t) → result.nextStep = some target → target ≠ "end" →
    GoesTo (parsedStep m name) dsl.stepNames[a.index + 1]? target

end Ways

section Unwritten
open Reader

/-- A step without a `next:` has none for the linter. -/
theorem parseStep_next_none {serde : Serde} (parsed : parseStep serde name (.mapping m) = .ok step)
    (acting : declares m = false) (silent : step.explicitNext = none) : strField m "next" = none := by
  obtain ⟨v,json,hint,converted,read,_⟩ := parseStep_iff.mp parsed
  obtain ⟨entries,members,rfl⟩ := Yaml.toJson_mapping converted
  have kind : v ≠ .declaration := by
    rw [declares_eq name hint] at acting
    exact of_decide_eq_false acting
  have field := reader_optionalNext kind read
  rw [silent] at field
  cases written : Yaml.get? m "next" with
  | none =>
    unfold strField
    rw [written]
    rfl
  | some value =>
    obtain ⟨j,valueJson⟩ := Yaml.toJson_of_member members (mem_of_get? written)
    have next : Yaml.isFieldName "next" = true := by decide
    have found := Yaml.lookup_mapping next converted
    rw [written,Option.bind_some,valueJson] at found
    have values := (Source.values_eq_singleton { members := Yaml.toObject [] entries } "next").mpr found
    simp only [Layout.optional,Layout.field,values] at field
    unfold strField
    rw [written,Option.bind_some]
    cases value with
    | string target =>
      cases valueJson
      cases field
    | tagged tag inner =>
      obtain ⟨_,_,rfl⟩ := Option.map_eq_some_iff.mp valueJson
      cases field
    | _ => rfl

end Unwritten

section Turns
variable {h : Host} {dsl : Dsl} {ctx : Ctx} {a b : Round} {serde : Serde} {m : List (Yaml × Yaml)} {name : String}
  {step : DslStep} {fuel : Nat}

/-- What the linter takes for a `return` is one. -/
theorem parseStep_return (parsed : parseStep serde name (.mapping m) = .ok step) (kind : stepKind m = "return") :
    ∃ s, step = .returnStep s := by
  obtain ⟨v,json,hint,_,read,_⟩ := parseStep_iff.mp parsed
  obtain ⟨one,discriminates⟩ := (variantHint_iff name).mp hint
  have present : keyPresent m "return" = true := by
    unfold stepKind at kind
    cases found : stepKeys.find? (keyPresent m) with
    | none =>
      rw [found] at kind
      exact absurd kind (by decide)
    | some key =>
      rw [found] at kind
      obtain rfl : key = "return" := kind
      exact List.find?_some found
  have entry : ("return",Variant.returnStep) ∈ keyVariants := by decide
  have variant : v = .returnStep := by
    have call {text : String} (given : strField m "call" = some text) : False := by
      have absent := absent_of_call one given _ entry
      rw [present] at absent
      cases absent
    cases discriminates with
    | key other held =>
      have same := only_action one (keyVariants_action _ other).1 (by decide) held present
      exact congrArg Prod.snd (keyVariants_unique _ other _ entry same)
    | http given _ => exact (call given).elim
    | mock given => exact (call given).elim
    | declare given => exact (call given).elim
    | field _ absent _ _ =>
      rw [absent _ entry] at present
      cases present
    | control bare =>
      rw [bare_absent bare (by decide)] at present
      cases present
  subst variant
  have kind := reader_variant read
  cases step with
  | returnStep s => exact ⟨s,rfl⟩
  | _ => cases kind

theorem engine_return (h : Host) (fuel : Nat) (s : ReturnStep) (ctx : Ctx) :
    Eff.Returns (fun r => r.shouldReturn = true) ((engine h fuel).step (.returnStep s) ctx) := by
  cases fuel with
  | zero => exact Eff.returns_throw _
  | succ fuel =>
    refine Eff.returns_bind_any fun _ => ?_
    refine Eff.returns_bind_any fun value => Eff.returns_bind_any fun statusValue => ?_
    refine Eff.returns_bind_any fun source => Eff.returns_bind_any fun headers => ?_
    exact Eff.returns_pure rfl

theorem Lint.GoesTo.next {p : ParsedStep} {below : Option String} {target : String} (given : p.next = some target)
    (other : target ≠ "end") : GoesTo p below target := .inl ⟨other,.inl given⟩

/-- A step that is executed and goes on in source order has no `next:` for the linter and is no `return`, if it
is no declaration. -/
theorem goesTo_below (parsed : parseStep serde name (.mapping m) = .ok step) (acting : declares m = false)
    (executed : (engine h fuel).step step ctx s = (.ok result,t)) (stays : result.shouldReturn = false)
    (bare : result.nextStep = none) : GoesTo (parsedStep m name) (some below) below := by
  refine .inr ⟨?_,?_,rfl⟩
  · have silent : step.explicitNext = none := by
      obtain ⟨returned,_⟩ | rfl | ⟨target,_,rfl⟩ := engine_step_gives h fuel step ctx _ _ _ executed
      · rw [stays] at returned
        cases returned
      · exact bare
      · cases bare
    exact parseStep_next_none parsed acting silent
  · intro kind
    obtain ⟨r,rfl⟩ := parseStep_return parsed kind
    have returned : result.shouldReturn = true := engine_return h fuel r ctx _ _ _ executed
    rw [stays] at returned
    cases returned

/-- A step that is executed and jumps goes where the walk goes. -/
theorem goesTo_target (parsed : parseStep serde name (.mapping m) = .ok step)
    (foreseen : a.Foreseen h (engine h fuel).step dsl ctx name step m)
    (performed : perform (engine h fuel).step ctx name step (a.slept step) = (.ok result,t))
    (stays : result.shouldReturn = false) (given : result.nextStep = some target) (other : target ≠ "end") :
    GoesTo (parsedStep m name) dsl.stepNames[a.index + 1]? target := by
  obtain ⟨returned,_⟩ | rfl | ⟨redirect,listed,rfl⟩ :=
    engine_step_gives h fuel step ctx _ _ _ (perform_ok_inv performed given)
  · rw [stays] at returned
    cases returned
  · exact .next (parseStep_next_inv parsed given) other
  · cases given
    cases step with
    | http s => exact foreseen.error s target _ t rfl (Option.mem_toList.mp listed) performed rfl other
    | «switch» s =>
      by_cases unread : UnreadBranches m
      · exact foreseen.branch s target _ t rfl unread performed rfl other
      · obtain ⟨alone,shaped⟩ := not_or.mp unread
        obtain ⟨branch,member,rfl⟩ := List.mem_map.mp listed
        have mappings : ∀ branch ∈ writtenBranches m, IsMapping branch := by
          intro branch inside
          by_contra shape
          exact shaped ⟨branch,inside,shape⟩
        exact .inl ⟨other,.inr (parseStep_switch parsed (Bool.eq_false_iff.mpr alone) mappings branch member)⟩
    | _ => cases listed

/-- From a round to the next one the run goes where the walk goes. -/
theorem goesTo_of_turn (turn : Turn h (engine h fuel).step dsl ctx a b) (named : dsl.stepNames[a.index]? = some name)
    (held : dsl.getStep name = some step) (parsed : parseStep serde name (.mapping m) = .ok step)
    (foreseen : a.Foreseen h (engine h fuel).step dsl ctx name step m) (there : dsl.stepNames[b.index]? = some target) :
    GoesTo (parsedStep m name) dsl.stepNames[a.index + 1]? target := by
  cases turn with
  | pass budget here known capped =>
    cases named.symm.trans here
    cases held.symm.trans known
    rw [there]
    exact foreseen.falls (.inl capped) target there
  | take dispatched taken =>
    cases named.symm.trans dispatched.named
    cases held.symm.trans dispatched.held
    cases leads_of_taken named held taken with
    | next here known performed stays given other place =>
      cases named.symm.trans here
      cases held.symm.trans known
      obtain ⟨inside,same,_⟩ := List.idxOf?_eq_some_iff.mp place
      rw [Round.after,List.getElem?_eq_getElem inside,same] at there
      cases there
      exact goesTo_target parsed foreseen performed stays given other
    | fallThrough here known performed stays given =>
      cases named.symm.trans here
      cases held.symm.trans known
      rw [show dsl.stepNames[a.index + 1]? = some target from there]
      by_cases skipped : step.base.skip.getD false = true
      · exact foreseen.falls (.inr (.inl (by cases held : step.base.skip <;> simp_all))) target there
      · cases shape : declares m with
        | true => exact foreseen.falls (.inr (.inr shape)) target there
        | false =>
          exact goesTo_below parsed shape (performed_inv skipped performed) stays given

end Turns

section Runs
variable {parser : DslParser} {raw : String} {dsl : Dsl} {file : ParsedFile} {h : Host} {fuel : Nat} {ctx : Ctx}
  {a : Round}

/-- The rounds of a run whose ways on are foreseen stay on steps that the walk reaches. -/
theorem path_of_round (accepted : parser.parseContent raw = .ok dsl) (read : Lint.parseFile parser true raw = .ok file)
    (loaded : parser.serde.yaml (parser.replaceConstants raw) = .ok yaml)
    (foreseen : ∀ a name step m, RoundOf h (engine h fuel).step dsl ctx s a → dsl.stepNames[a.index]? = some name →
      dsl.getStep name = some step → yaml.lookup name = some (.mapping m) →
      a.Foreseen h (engine h fuel).step dsl ctx name step m)
    (run : RoundOf h (engine h fuel).step dsl ctx s a) (named : dsl.stepNames[a.index]? = some name)
    (first : dsl.stepNames[0]? = some entry) :
    Relation.ReflTransGen (fun x y => y ∈ successors file.steps x) entry name := by
  have names := (steps_of_accepted accepted read).1
  have nodup : (file.steps.map (·.name)).Nodup := names ▸ dsl.steps.nodupKeys
  induction run generalizing name with
  | refl =>
    cases first.symm.trans named
    exact .refl
  | @tail b c before turn ih =>
    obtain ⟨current,here⟩ : ∃ current, dsl.stepNames[b.index]? = some current := by
      cases turn with
      | pass _ here => exact ⟨_,here⟩
      | take dispatched => exact ⟨_,dispatched.named⟩
    obtain ⟨step,held,_⟩ := b.step?_isSome here
    obtain ⟨m,found,listed⟩ := parsed_at accepted read loaded here
    obtain ⟨again,loadedAgain,parsed,_⟩ := DslParser.accepted_inv accepted
    cases loaded.symm.trans loadedAgain
    obtain ⟨value,sameValue,given⟩ := Assoc.lookup_traverse_inv parsed held
    cases found.symm.trans sameValue
    have goes := goesTo_of_turn turn here held given (foreseen b current step m before here held found) named
    have below : file.steps[b.index + 1]?.map (·.name) = dsl.stepNames[b.index + 1]? := by
      rw [← List.getElem?_map,names]
    exact (ih here).tail (mem_successors nodup listed below goes)

/-- In a run whose ways on are foreseen every step that is dispatched is reached from the entry of the file, and so
it is not reported. -/
theorem dispatched_reached (parser : DslParser) (accepted : parser.parseContent raw = .ok dsl)
    (read : Lint.parseFile parser true raw = .ok file) (h : Host) (fuel : Nat) (ctx : Ctx) (s : St)
    (foreseen : ∀ a name step yaml m, RoundOf h (engine h fuel).step dsl ctx s a →
      dsl.stepNames[a.index]? = some name → dsl.getStep name = some step →
      parser.serde.yaml (parser.replaceConstants raw) = .ok yaml → yaml.lookup name = some (.mapping m) →
      a.Foreseen h (engine h fuel).step dsl ctx name step m) :
    ∀ a name step, RoundOf h (engine h fuel).step dsl ctx s a → a.Dispatches h dsl name step →
      ∃ entry, file.entryStep = some entry ∧ name ∈ reached file entry ∧
        .unreachable name entry ∉ unreachableSteps file := by
  intro a name step run dispatched
  obtain ⟨yaml,loaded,_⟩ := DslParser.accepted_inv accepted
  obtain ⟨_,start⟩ := steps_of_accepted accepted read
  have room := (List.getElem?_eq_some_iff.mp dispatched.named).1
  obtain ⟨entry,first⟩ : ∃ entry, dsl.stepNames[0]? = some entry := ⟨_,List.getElem?_eq_getElem (by omega)⟩
  have given : file.entryStep = some entry := by rw [start,List.head?_eq_getElem?,first]
  have path := path_of_round accepted read loaded
    (fun a name step m run named held found => foreseen a name step yaml m run named held loaded found) run
    dispatched.named first
  obtain ⟨m,_,listed⟩ := parsed_at accepted read loaded first
  have inside := mem_reached (List.mem_of_getElem? listed) path
  exact ⟨entry,given,inside,not_unreachable given inside⟩

end Runs

section Missed

/-- The ways on that the walk does not know of. -/
inductive Way
  | error | skip | cap | declaration

/-- A first step that goes to the step below although its `next:` is another one. -/
def startMembers : Way → List (Yaml × Yaml)
  | .error => [(.string "call",.string "http.get"),(.string "args",.mapping [(.string "url",.string "down")]),
      (.string "error",.string "lost"),(.string "next",.string "done")]
  | .skip => [(.string "log",.string "hello"),(.string "skip",.bool true),(.string "next",.string "done")]
  | .cap => [(.string "log",.string "hello"),(.string "max_recursions",.number (.posInt 0)),
      (.string "next",.string "done")]
  | .declaration => [(.string "version",.string "one"),(.string "next",.string "done")]

def startText : Way → String
  | .error => "start:\n  call: http.get\n  args:\n    url: down\n  error: lost\n  next: done\n"
  | .skip => "start:\n  log: hello\n  skip: true\n  next: done\n"
  | .cap => "start:\n  log: hello\n  max_recursions: 0\n  next: done\n"
  | .declaration => "start:\n  version: one\n  next: done\n"

def startStep : Way → DslStep
  | .error => .http { call := "http.get", args := { url := "down" }, error := some "lost", next := some "done" }
  | .skip => .log { log := .string "hello", next := some "done", base := { skip := some true } }
  | .cap => .log { log := .string "hello", next := some "done", base := { maxRecursions := some 0 } }
  | .declaration => .declaration { version := some "one" }

def startKind : Way → String
  | .error => "call"
  | .skip | .cap => "log"
  | .declaration => "unknown"

variable (way : Way)

def lostContent : String := startText way ++ "lost:\n  return: lost\ndone:\n  return: done\n"

def lostDocument : StringMap Yaml where
  entries := [⟨"start",.mapping (startMembers way)⟩,⟨"lost",.mapping [(.string "return",.string "lost")]⟩,
    ⟨"done",.mapping [(.string "return",.string "done")]⟩]
  nodupKeys := by simp [List.NodupKeys]

def lostDsl : Dsl where
  steps :=
    { entries := [⟨"start",startStep way⟩,⟨"lost",.returnStep { returnValue := .string "lost" }⟩,
        ⟨"done",.returnStep { returnValue := .string "done" }⟩]
      nodupKeys := by simp [List.NodupKeys] }

def lostFile : ParsedFile where
  entryStep := some "start"
  steps := [{ name := "start", kind := startKind way, next := some "done", switchTargets := [] },
    { name := "lost", kind := "return", next := none, switchTargets := [] },
    { name := "done", kind := "return", next := none, switchTargets := [] }]
  raw := lostContent way
  templateTargets := []
  hasProxyDeclaration := false

/-- The upstream of the call is down. -/
def downHost : Host where
  request _ _ := .ok { status := 0, error := some "connect" }

/-- A run executes a step that the linter reports as unreachable. -/
def Missed : Prop :=
  let parser := DslParser.oneDocument (lostContent way) (lostDocument way)
  parser.parseContent (lostContent way) = .ok (lostDsl way) ∧
    Lint.parseFile parser true (lostContent way) = .ok (lostFile way) ∧
    (∃ a step, RoundOf downHost (engine downHost 1).step (lostDsl way) {} {} a ∧
      a.Dispatches downHost (lostDsl way) "lost" step ∧ step.base.skip = none) ∧
    "lost" ∉ reached (lostFile way) "start" ∧ .unreachable "lost" "start" ∈ unreachableSteps (lostFile way)

theorem lost_loaded :
    let parser := DslParser.oneDocument (lostContent way) (lostDocument way)
    parser.serde.yaml (parser.replaceConstants (lostContent way)) = .ok (lostDocument way) :=
  DslParser.oneDocument_loaded (DslParser.replaceConstants_plain _ (by cases way <;> decide +kernel))

/-- The run goes on to the step below the first one. -/
theorem lost_next :
    ∃ a, Turn downHost (engine downHost 1).step (lostDsl way) {} (firstRound downHost (lostDsl way) {}) a ∧
    a.index = 1 ∧ a.budget = 9999 ∧ a.count "lost" = 0 := by
  have room : 0 < downHost.maxIterations.toNat := Nat.zero_lt_succ 9999
  have dispatched (free : (startStep way).base.maxRecursions = none) :
      (firstRound downHost (lostDsl way) {}).Dispatches downHost (lostDsl way) "start" (startStep way) := by
    refine ⟨room,by cases way <;> rfl,by cases way <;> rfl,?_⟩
    unfold perStepCap
    rw [free]
    exact room
  cases way with
  | cap =>
    have named : (lostDsl .cap).stepNames[(firstRound downHost (lostDsl .cap) {}).index]? = some "start" := rfl
    exact ⟨_,.pass room named rfl (Nat.le_refl 0),rfl,rfl,rfl⟩
  | error | skip | declaration => exact ⟨_,.take (dispatched rfl) rfl,rfl,rfl,rfl⟩

theorem missed : Missed way := by
  refine ⟨?_,?_,?_,?_,?_⟩
  · rw [DslParser.parseContent_loaded (lost_loaded way)]
    cases way <;> rfl
  · unfold Lint.parseFile
    rw [lost_loaded way]
    cases way <;> rfl
  · obtain ⟨a,turn,index,budget,count⟩ := lost_next way
    have named : (lostDsl way).stepNames[a.index]? = some "lost" := by
      rw [index]
      cases way <;> rfl
    refine ⟨a,.returnStep { returnValue := .string "lost" },.single turn,⟨by omega,named,rfl,?_⟩,rfl⟩
    rw [count]
    exact Nat.zero_lt_succ 9999
  · cases way <;> decide +kernel
  · cases way <;> decide +kernel

/-- A failing call that goes to its `error:`, a skipped step, a step at its cap and a declaration with a `next:`
lead to a step that the linter reports. -/
theorem live_steps_missed : Missed .error ∧ Missed .skip ∧ Missed .cap ∧ Missed .declaration :=
  ⟨missed .error,missed .skip,missed .cap,missed .declaration⟩

end Missed

section Skipped

/-- A skipped step without a `next:`. -/
def skippedContent : String := "start:\n  log: hello\n  skip: true\ndone:\n  log: bye\n"

def skippedDocument : StringMap Yaml where
  entries := [⟨"start",.mapping [(.string "log",.string "hello"),(.string "skip",.bool true)]⟩,
    ⟨"done",.mapping [(.string "log",.string "bye")]⟩]
  nodupKeys := by simp [List.NodupKeys]

def skippedDsl : Dsl where
  steps :=
    { entries := [⟨"start",.log { log := .string "hello", base := { skip := some true } }⟩,
        ⟨"done",.log { log := .string "bye" }⟩]
      nodupKeys := by simp [List.NodupKeys] }

def skippedFile : ParsedFile where
  entryStep := some "start"
  steps := [{ name := "start", kind := "log", next := none, switchTargets := [] },
    { name := "done", kind := "log", next := none, switchTargets := [] }]
  raw := skippedContent
  templateTargets := []
  hasProxyDeclaration := false

theorem skipped_loaded :
    let parser := DslParser.oneDocument skippedContent skippedDocument
    parser.serde.yaml (parser.replaceConstants skippedContent) = .ok skippedDocument :=
  DslParser.oneDocument_loaded (DslParser.replaceConstants_plain _ (by decide +kernel))

/-- The run goes on from the skipped step. -/
theorem skipped_done : ∃ a, RoundOf downHost (engine downHost 1).step skippedDsl {} {} a ∧
    a.Dispatches downHost skippedDsl "done" (.log { log := .string "bye" }) := by
  have room : 0 < downHost.maxIterations.toNat := Nat.zero_lt_succ 9999
  have start : (firstRound downHost skippedDsl {}).Dispatches downHost skippedDsl "start"
      (.log { log := .string "hello", base := { skip := some true } }) := ⟨room,rfl,rfl,room⟩
  have taken : takeStep (engine downHost 1).step skippedDsl {} "start"
      (.log { log := .string "hello", base := { skip := some true } }) 0 (firstRound downHost skippedDsl {}).state =
      (.ok (.goto 1),(firstRound downHost skippedDsl {}).state) := rfl
  exact ⟨_,.single (.take start taken),Nat.zero_lt_succ 9998,rfl,rfl,room⟩

theorem skipped_foreseen (a : Round) (held : skippedDsl.getStep name = some step)
    (found : skippedDocument.lookup name = some (.mapping m)) :
    a.Foreseen downHost (engine downHost 1).step skippedDsl {} name step m := by
  have written := AList.mem_lookup_iff.mp found
  have stored := AList.mem_lookup_iff.mp held
  simp only [skippedDocument,skippedDsl,List.mem_cons,List.not_mem_nil,or_false,Sigma.mk.injEq,heq_eq_eq,
    Yaml.mapping.injEq] at written stored
  have silent : (parsedStep m name).next = none ∧ (parsedStep m name).kind ≠ "return" := by
    obtain ⟨rfl,rfl⟩ | ⟨rfl,rfl⟩ := written <;> exact ⟨rfl,by decide⟩
  have logs : ∃ s, step = .log s := by
    obtain ⟨_,rfl⟩ | ⟨_,rfl⟩ := stored <;> exact ⟨_,rfl⟩
  obtain ⟨s,rfl⟩ := logs
  refine ⟨fun _ below _ => .inr ⟨silent.1,silent.2,rfl⟩,?_,?_⟩
  · intro s target result t other
    cases other
  · intro s target result t other
    cases other

theorem dispatched_reached_skipped :
    ∃ a step, RoundOf downHost (engine downHost 1).step skippedDsl {} {} a ∧
      a.Dispatches downHost skippedDsl "done" step ∧
      ∃ entry, skippedFile.entryStep = some entry ∧ "done" ∈ reached skippedFile entry ∧
        .unreachable "done" entry ∉ unreachableSteps skippedFile := by
  have accepted : (DslParser.oneDocument skippedContent skippedDocument).parseContent skippedContent =
      .ok skippedDsl := by
    rw [DslParser.parseContent_loaded skipped_loaded]
    rfl
  have read : Lint.parseFile (DslParser.oneDocument skippedContent skippedDocument) true skippedContent =
      .ok skippedFile := by
    unfold Lint.parseFile
    rw [skipped_loaded]
    rfl
  obtain ⟨a,run,dispatched⟩ := skipped_done
  refine ⟨a,_,run,dispatched,?_⟩
  refine dispatched_reached _ accepted read downHost 1 {} {} ?_ _ _ _ run dispatched
  intro a name step yaml m _ _ held loaded found
  cases skipped_loaded.symm.trans loaded
  exact skipped_foreseen a held found

end Skipped

end Ruuter
