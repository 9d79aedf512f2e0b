import Ruuter.SelfCall

/-! The call graph of a loaded tree: which DSLs a step can have run, through `template` steps,
self-calls and the default exception DSL, and how steps nest in one another. -/
namespace Ruuter

mutual

/-- How often a step and the steps of its bodies are dispatched at most. -/
def DslStep.weight : DslStep → Nat
  | .iterate ⟨⟨_,_,body,_,_,maxItems⟩,_,_⟩ => 1 + (maxItems.getD defaultMaxItems).toNat * bodyWeight body
  | .detach ⟨⟨body,_⟩,_,_⟩ => 1 + bodyWeight body
  | .singleFlight ⟨⟨_,_,body,_⟩,_,_⟩ => 1 + bodyWeight body
  | _ => 1

def bodyWeight : List DslStep → Nat
  | [] => 0
  | step :: rest => step.weight + bodyWeight rest

/-- How deep the bodies of a step nest. -/
def DslStep.depth : DslStep → Nat
  | .iterate ⟨⟨_,_,body,_,_,_⟩,_,_⟩ => 1 + bodyDepth body
  | .detach ⟨⟨body,_⟩,_,_⟩ => 1 + bodyDepth body
  | .singleFlight ⟨⟨_,_,body,_⟩,_,_⟩ => 1 + bodyDepth body
  | _ => 1

def bodyDepth : List DslStep → Nat
  | [] => 0
  | step :: rest => max step.depth (bodyDepth rest)

/-- A step and the steps of its bodies. -/
def DslStep.flatten : DslStep → List DslStep
  | step@(.iterate ⟨⟨_,_,body,_,_,_⟩,_,_⟩) => step :: flattenBody body
  | step@(.detach ⟨⟨body,_⟩,_,_⟩) => step :: flattenBody body
  | step@(.singleFlight ⟨⟨_,_,body,_⟩,_,_⟩) => step :: flattenBody body
  | step => [step]

def flattenBody : List DslStep → List DslStep
  | [] => []
  | step :: rest => step.flatten ++ flattenBody rest

end

namespace Tree

/-- The guards of a tree. -/
def guardMembers (tree : Tree) : List Dsl :=
  tree.guards.entries.flatMap fun project => project.2.entries.map (·.2)

/-- The DSLs of a tree. -/
def members (tree : Tree) : List Dsl :=
  tree.guardMembers ++ tree.dsls.entries.flatMap fun project =>
    project.2.entries.flatMap fun method => method.2.entries.map (·.2)

/-- A bound on the guards in front of one DSL. -/
def guardCount (tree : Tree) : Nat := 1 + tree.guardMembers.length

def steps (tree : Tree) : List DslStep := tree.members.flatMap fun dsl => dsl.steps.entries.map (·.2)

def weight (tree : Tree) : Nat := bodyWeight tree.steps

end Tree

/-- The engine and the router see one loaded tree. -/
structure Serves (h : Host) (tree : Tree) : Prop where
  dsls : ∀ now, h.loadDsls now = some tree.dsls
  guards : ∀ now, h.loadGuards now = tree.guards

section Calls
variable (h : Host) (client : HttpClient) (tree : Tree) (callable : Dsl → Prop)

/-- Every DSL that a step has run, bodies apart, is callable: the guards and the target of a
`template` step, in whatever project, the exception DSL of an `http` step, and any DSL at all
when the requests of an `http` or a `parallel_http` step can be self-calls. -/
def DslStep.CallsDirectly : DslStep → Prop
  | .template s =>
    let method := h.uppercase (s.requestType.getD "GET")
    let key := method ++ "/" ++ Text.trimMatches s.template '/'
    ∀ project, (∀ target, lookupDsl tree.dsls project method key = some target → callable target) ∧
      ∀ entry ∈ applicableGuards tree.guards h.guardsMode project key, callable entry.2
  | .http _ =>
    (∀ cfg, h.defaultExceptionDsl = some cfg → ∀ target,
      lookupDsl tree.dsls cfg.project (h.uppercase cfg.requestType)
        (h.uppercase cfg.requestType ++ "/" ++ Text.trimMatches cfg.dsl '/') = some target →
      callable target) ∧
    (client.selfOrigins ≠ [] → ∀ dsl ∈ tree.members, callable dsl)
  | .parallelHttp _ => client.selfOrigins ≠ [] → ∀ dsl ∈ tree.members, callable dsl
  | _ => True

/-- A step nested at most to a depth that has only callable DSLs run. -/
structure DslStep.Fits (depth : Nat) (step : DslStep) : Prop where
  calls : ∀ inner ∈ step.flatten, inner.CallsDirectly h client tree callable
  shallow : step.depth ≤ depth

/-- The tree has no cycle: what a DSL calls, in whatever body, is of lower rank. -/
def Ranked (rank : Dsl → Nat) : Prop :=
  ∀ dsl ∈ tree.members, ∀ name step, dsl.getStep name = some step → ∀ inner ∈ step.flatten,
    inner.CallsDirectly h client tree fun callee => rank callee < rank dsl

end Calls

section Members
variable {tree : Tree}

theorem entry_mem {map : StringMap α} (found : map.lookup key = some value) :
    (⟨key,value⟩ : Sigma fun _ : String => α) ∈ map.entries := AList.mem_lookup_iff.mp found

theorem route_mem {byMethod : StringMap (StringMap Dsl)} {byKey : StringMap Dsl}
    (project_found : tree.dsls.lookup project = some byMethod)
    (method_found : byMethod.lookup method = some byKey) (found : byKey.lookup key = some dsl) :
    dsl ∈ tree.members :=
  List.mem_append_right _ (List.mem_flatMap.mpr ⟨_,entry_mem project_found,
    List.mem_flatMap.mpr ⟨_,entry_mem method_found,List.mem_map.mpr ⟨_,entry_mem found,rfl⟩⟩⟩)

theorem lookupDsl_mem (found : lookupDsl tree.dsls project method key = some dsl) : dsl ∈ tree.members := by
  obtain ⟨byMethod,project_found,rest⟩ := Option.bind_eq_some_iff.mp found
  obtain ⟨byKey,method_found,found⟩ := Option.bind_eq_some_iff.mp rest
  exact route_mem project_found method_found found

theorem resolveSegments_found
    (found : resolveSegments byKey method reversed stripped = some (dsl,key,params)) :
    byKey.lookup key = some dsl := by
  induction reversed generalizing stripped with
  | nil => cases found
  | cons last before ih =>
    unfold resolveSegments at found
    dsimp only at found
    split at found
    · rename_i candidate
      cases found
      exact candidate
    · exact ih found

theorem resolve_mem (found : resolveDslWithPathParams tree.dsls project method path = some (dsl,key,params)) :
    dsl ∈ tree.members := by
  unfold resolveDslWithPathParams at found
  split at found
  · cases found
  · rename_i byKey listed
    obtain ⟨byMethod,project_found,method_found⟩ := Option.bind_eq_some_iff.mp listed
    exact route_mem project_found method_found (resolveSegments_found found)

theorem applicableGuards_mem (member : entry ∈ applicableGuards tree.guards mode project key) :
    entry.2 ∈ tree.members := by
  unfold applicableGuards at member
  split at member
  · cases member
  · rename_i guards listed
    obtain ⟨guardKey,_,kept⟩ := List.mem_filterMap.mp member
    obtain ⟨guard,found,rfl⟩ := Option.map_eq_some_iff.mp kept
    exact List.mem_append_left _ (List.mem_flatMap.mpr ⟨_,entry_mem listed,
      List.mem_map.mpr ⟨_,entry_mem found,rfl⟩⟩)

theorem resolveGuardKeys_length (guards : StringMap Dsl) (key : String) (mode : GuardMode) :
    (resolveGuardKeys guards key mode).length ≤ 1 + guards.keys.length := by
  have at_most : ∀ found : Option String, found.toList.length ≤ 1 := by
    intro found
    cases found <;> simp
  have matched : (methodScopedMatches guards key).length ≤ guards.keys.length := by
    unfold methodScopedMatches
    rw [List.length_insertionSort]
    exact List.length_filter_le _ _
  unfold resolveGuardKeys
  dsimp only
  split
  · have := at_most (maxByKey String.utf8ByteSize
      ((methodScopedMatches guards key).filter fun guardKey => isOverrideGuard (guards.lookup guardKey)))
    omega
  · rw [List.length_append]
    have first := at_most (guards.keys.find? (· == projectGuardKey))
    cases mode with
    | stack =>
      dsimp only
      omega
    | closestOnly =>
      have last : (methodScopedMatches guards key).getLast?.toList.length ≤
          (methodScopedMatches guards key).length := by
        cases methodScopedMatches guards key with
        | nil => simp
        | cons a rest => simp [List.getLast?_cons]
      dsimp only
      omega

theorem applicableGuards_length (tree : Tree) (mode : GuardMode) (project key : String) :
    (applicableGuards tree.guards mode project key).length ≤ tree.guardCount := by
  unfold applicableGuards
  split
  · simp
  · rename_i guards listed
    have keys : guardKeysForDsl project key tree.guards mode = resolveGuardKeys guards key mode := by
      simp only [guardKeysForDsl,listed]
    have inside : guards.keys.length ≤ tree.guardMembers.length := by
      have part : guards.entries.map (·.2) ∈
          tree.guards.entries.map fun project => project.2.entries.map (·.2) :=
        List.mem_map.mpr ⟨_,entry_mem listed,rfl⟩
      have shorter := (List.sublist_flatten_of_mem part).length_le
      rw [← List.flatMap_def,List.length_map] at shorter
      simpa [AList.keys,List.keys,Tree.guardMembers] using shorter
    have chain := List.length_filterMap_le (fun guardKey =>
      (guards.lookup guardKey).map fun guard => (guardKey,guard))
      (guardKeysForDsl project key tree.guards mode)
    have bound := resolveGuardKeys_length guards key mode
    rw [keys] at chain
    rw [keys]
    unfold Tree.guardCount
    omega

end Members

section Bodies
variable {h : Host} {client : HttpClient} {tree : Tree} {callable : Dsl → Prop} {depth : Nat}

theorem bodyWeight_sum (steps : List DslStep) (price : Nat) :
    (steps.map fun step => step.weight * price).sum = bodyWeight steps * price := by
  induction steps with
  | nil => simp [bodyWeight]
  | cons step rest ih => rw [List.map_cons,List.sum_cons,ih,bodyWeight,Nat.add_mul]

theorem depth_le_bodyDepth {steps : List DslStep} (member : step ∈ steps) :
    step.depth ≤ bodyDepth steps := by
  induction steps with
  | nil => cases member
  | cons head rest ih =>
    rw [bodyDepth]
    rcases List.mem_cons.mp member with rfl | later
    · omega
    · have := ih later
      omega

theorem bodyWeight_take (steps : List DslStep) (count : Nat) :
    bodyWeight (steps.take count) ≤ bodyWeight steps := by
  induction steps generalizing count with
  | nil => simp
  | cons step rest ih =>
    cases count with
    | zero => simp [bodyWeight]
    | succ count =>
      rw [List.take_succ_cons,bodyWeight,bodyWeight]
      have := ih count
      omega

theorem weight_le_bodyWeight {steps : List DslStep} (member : step ∈ steps) :
    step.weight ≤ bodyWeight steps := by
  induction steps with
  | nil => cases member
  | cons head rest ih =>
    rw [bodyWeight]
    rcases List.mem_cons.mp member with rfl | later
    · omega
    · have := ih later
      omega

theorem step_mem {tree : Tree} (member : dsl ∈ tree.members) (found : dsl.getStep name = some step) :
    step ∈ tree.steps :=
  List.mem_flatMap.mpr ⟨dsl,member,List.mem_map.mpr ⟨_,entry_mem found,rfl⟩⟩

theorem weight_iterate (s : IterateStep DslStep) : (DslStep.iterate s).weight =
    1 + (s.iterate.maxItems.getD defaultMaxItems).toNat * bodyWeight s.iterate.body := by
  rw [DslStep.weight]

theorem weight_detach (s : DetachStep DslStep) :
    (DslStep.detach s).weight = 1 + bodyWeight s.detach.body := by
  rw [DslStep.weight]

theorem weight_singleFlight (s : SingleFlightStep DslStep) :
    (DslStep.singleFlight s).weight = 1 + bodyWeight s.singleFlight.body := by
  rw [DslStep.weight]

theorem DslStep.depth_pos (step : DslStep) : 1 ≤ step.depth := by
  cases step <;> simp [DslStep.depth]

theorem mem_flattenBody {body : List DslStep} (member : part ∈ body) (inner : step ∈ part.flatten) :
    step ∈ flattenBody body := by
  induction body with
  | nil => cases member
  | cons head rest ih =>
    rw [flattenBody,List.mem_append]
    rcases List.mem_cons.mp member with rfl | later
    · exact .inl inner
    · exact .inr (ih later)

theorem DslStep.mem_flatten (step : DslStep) : step ∈ step.flatten := by
  cases step <;> simp [DslStep.flatten]

/-- What fits has a body that fits one level down. -/
theorem DslStep.Fits.body {step : DslStep} (fits : step.Fits h client tree callable (depth + 1))
    (body : List DslStep)
    (flat : step.flatten = step :: flattenBody body) (deep : step.depth = 1 + bodyDepth body) :
    ∀ part ∈ body, part.Fits h client tree callable depth := by
  intro part member
  constructor
  · intro inner within
    exact fits.calls inner (by simp [flat,mem_flattenBody member within])
  · have := depth_le_bodyDepth member
    have := fits.shallow
    omega

end Bodies

section Callable
variable {h : Host} {client : HttpClient} {tree : Tree} {callable other : Dsl → Prop}

/-- In a tree every step calls DSLs of the tree. -/
theorem callsDirectly_members (step : DslStep) :
    step.CallsDirectly h client tree fun dsl => dsl ∈ tree.members := by
  cases step with
  | template s =>
    exact fun project => ⟨fun _ found => lookupDsl_mem found,fun _ guard => applicableGuards_mem guard⟩
  | http s => exact ⟨fun _ _ _ found => lookupDsl_mem found,fun _ _ member => member⟩
  | parallelHttp s => exact fun _ _ member => member
  | _ => trivial

theorem callsDirectly_and {step : DslStep} (calls : step.CallsDirectly h client tree callable)
    (others : step.CallsDirectly h client tree other) :
    step.CallsDirectly h client tree fun dsl => callable dsl ∧ other dsl := by
  cases step with
  | template s =>
    intro project
    obtain ⟨targets,guards⟩ := calls project
    obtain ⟨targets',guards'⟩ := others project
    exact ⟨fun dsl found => ⟨targets dsl found,targets' dsl found⟩,
      fun entry guard => ⟨guards entry guard,guards' entry guard⟩⟩
  | http s =>
    obtain ⟨exception,own⟩ := calls
    obtain ⟨exception',own'⟩ := others
    exact ⟨fun cfg set dsl found => ⟨exception cfg set dsl found,exception' cfg set dsl found⟩,
      fun origins dsl member => ⟨own origins dsl member,own' origins dsl member⟩⟩
  | parallelHttp s => exact fun origins dsl member => ⟨calls origins dsl member,others origins dsl member⟩
  | _ => trivial

end Callable

end Ruuter
