import Ruuter.CallGraph
import Ruuter.LoadSlots
import Ruuter.NullAbsent

/-! What a reload can reach. A run asks the loaded trees for the slots that its steps name, and comes
to the DSLs it finds there; reloads that leave these slots alone, whenever they happen, are not
seen by the run. -/
namespace Ruuter

/-- The host with the trees that are loaded at each moment. -/
def Host.serving (h : Host) (trees : Nat → LoadedProjects) : Host :=
  { h with loadDsls := fun now => some (trees now).http, loadGuards := fun now => (trees now).guards }

def Slot.project : Slot → String
  | .route project _ _ | .guard project _ | .trigger project _ _ => project

/-- The keys of the guards that can stand in front of a route. -/
def Gates (dslKey guardKey : String) : Prop := guardKey = projectGuardKey ∨ guardMatches dslKey guardKey = true

/-- The slots that a step of a project asks for: the target of a `template` step and the guards in front
of it, and the default exception DSL of an `http` step. -/
def DslStep.Asks (h : Host) (project : String) : DslStep → Slot → Prop
  | .template s, .route p method key =>
    p = project ∧ method = h.uppercase (s.requestType.getD "GET") ∧
      key = method ++ "/" ++ Text.trimMatches s.template '/'
  | .template s, .guard p guardKey =>
    p = project ∧ Gates (h.uppercase (s.requestType.getD "GET") ++ "/" ++ Text.trimMatches s.template '/') guardKey
  | .http _, .route p method key =>
    ∃ cfg, h.defaultExceptionDsl = some cfg ∧ p = cfg.project ∧ method = h.uppercase cfg.requestType ∧
      key = method ++ "/" ++ Text.trimMatches cfg.dsl '/'
  | _, _ => False

/-- A step, or one of the steps of its bodies, asks for a slot. -/
def DslStep.AsksWithin (h : Host) (project : String) (step : DslStep) (slot : Slot) : Prop :=
  ∃ inner ∈ step.flatten, inner.Asks h project slot

def Dsl.Asks (h : Host) (project : String) (dsl : Dsl) (slot : Slot) : Prop :=
  ∃ name step, dsl.getStep name = some step ∧ step.AsksWithin h project slot

/-- The DSLs that a run of a DSL can come to, each with the project it runs in. -/
inductive Called (h : Host) (trees : Nat → LoadedProjects) (project : String) (dsl : Dsl) : String → Dsl → Prop
  | start : Called h trees project dsl project dsl
  | call : Called h trees project dsl p caller → caller.Asks h p slot → (trees now).find slot = some callee →
      Called h trees project dsl slot.project callee

/-- The slots that a run of a DSL can ask for. -/
def RunAsks (h : Host) (trees : Nat → LoadedProjects) (project : String) (dsl : Dsl) (slot : Slot) : Prop :=
  ∃ p caller, Called h trees project dsl p caller ∧ caller.Asks h p slot

section Leaves
variable {h : Host} {trees : Nat → LoadedProjects}

theorem interpolate_serving (ctx : Ctx) (text : String) (segments : List Segment) :
    interpolate (h.serving trees) ctx text segments = interpolate h ctx text segments := by
  induction segments with
  | nil => rfl
  | cons segment rest ih =>
    funext cursor out failed
    simp only [interpolate,ih]
    rfl

theorem evaluateString_serving (ctx : Ctx) (text : String) :
    evaluateString (h.serving trees) ctx text = evaluateString h ctx text := by
  simp only [evaluateString,interpolate_serving]
  rfl

mutual

theorem evaluateWith_serving (ctx : Ctx) : (value : Json) →
    evaluateWith (h.serving trees) ctx value = evaluateWith h ctx value
  | .string text => by simp only [evaluateWith,evaluateString_serving]
  | .array items => by simp only [evaluateWith,evaluateItems_serving ctx items]
  | .object members => by simp only [evaluateWith,evaluateMembers_serving ctx members]
  | .null | .bool _ | .number _ => rfl

theorem evaluateItems_serving (ctx : Ctx) : (items : List Json) →
    evaluateItems (h.serving trees) ctx items = evaluateItems h ctx items
  | [] => rfl
  | item :: rest => by simp only [evaluateItems,evaluateWith_serving ctx item,evaluateItems_serving ctx rest]

theorem evaluateMembers_serving (ctx : Ctx) : (members : List (String × Json)) →
    evaluateMembers (h.serving trees) ctx members = evaluateMembers h ctx members
  | [] => rfl
  | (_,value) :: rest => by simp only [evaluateMembers,evaluateWith_serving ctx value,evaluateMembers_serving ctx rest]

end

@[simp] theorem evaluate_serving : evaluate (h.serving trees) = evaluate h := by
  funext ctx value
  simp only [evaluate,evaluateWith_serving]
  rfl

@[simp] theorem evaluateOption_serving : evaluateOption (h.serving trees) = evaluateOption h := by
  funext ctx value
  cases value <;> simp only [evaluateOption,evaluate_serving]

@[simp] theorem evaluateMapArg_serving : evaluateMapArg (h.serving trees) = evaluateMapArg h := by
  funext ctx stepName argName value
  simp only [evaluateMapArg,evaluate_serving]

@[simp] theorem evaluateKey_serving : evaluateKey (h.serving trees) = evaluateKey h := by
  funext ctx key
  simp only [evaluateKey,evaluate_serving]
  rfl

@[simp] theorem resolveArgs_serving : resolveArgs (h.serving trees) = resolveArgs h := by
  funext ctx stepName args
  simp only [resolveArgs,evaluate_serving,evaluateOption_serving,evaluateMapArg_serving]

theorem executeAssign_serving : executeAssign (h.serving trees) = executeAssign h := by
  funext ctx s
  simp only [executeAssign,evaluate_serving]

theorem executeReturn_serving : executeReturn (h.serving trees) = executeReturn h := by
  funext ctx s
  simp only [executeReturn,returnHeaderSource,renderHeaders,evaluate_serving,evaluateOption_serving]
  rfl

theorem executeHttpMock_serving : executeHttpMock (h.serving trees) = executeHttpMock h := by
  funext ctx s
  simp only [executeHttpMock,evaluate_serving,evaluateOption_serving]

theorem executeSwitch_serving : executeSwitch (h.serving trees) = executeSwitch h := by
  funext ctx s
  simp only [executeSwitch,evaluate_serving]

theorem executeLog_serving : executeLog (h.serving trees) = executeLog h := by
  funext ctx s
  simp only [executeLog,evaluate_serving]

theorem executeState_serving : executeState (h.serving trees) = executeState h := by
  funext ctx s
  simp only [executeState,performState,evaluate_serving,evaluateKey_serving]
  rfl

theorem collectFirstN_serving (ctx : Ctx) (predicate : Option EarlyExitOn) (missing : Nat)
    (finished : List PeerOutcome) :
    collectFirstN (h.serving trees) ctx predicate missing finished =
      collectFirstN h ctx predicate missing finished := by
  have same : predicateMatches (h.serving trees) ctx predicate = predicateMatches h ctx predicate := by
    funext response
    simp only [predicateMatches,evaluate_serving]
  induction finished generalizing missing with
  | nil => cases missing <;> simp only [collectFirstN]
  | cons p rest ih =>
    cases missing with
    | zero => simp only [collectFirstN]
    | succ missing => simp only [collectFirstN,same,ih]

theorem executeParallelHttpWith_serving :
    executeParallelHttpWith (h.serving trees) = executeParallelHttpWith h := by
  funext ctx sendAll s
  simp only [executeParallelHttpWith,aggregated,collectFirstN_serving,evaluate_serving,resolveArgs_serving]
  rfl

theorem executeWsSend_serving : executeWsSend (h.serving trees) = executeWsSend h := by
  funext ctx s
  simp only [executeWsSend,resolveBroadcastWhere,resolveWhereField,evaluate_serving,evaluateOption_serving]
  rfl

theorem executeWsTag_serving : executeWsTag (h.serving trees) = executeWsTag h := by
  funext ctx s
  simp only [executeWsTag,evaluate_serving]
  rfl

end Leaves

section Chains
variable {G H : StringMap Dsl}

/-- Only the guards that cover a route have a say in its chain. -/
theorem resolveGuardKeys_of_gates (same : ∀ key, Gates dslKey key → G.lookup key = H.lookup key) (mode : GuardMode) :
    resolveGuardKeys G dslKey mode = resolveGuardKeys H dslKey mode := by
  have present : ∀ key, Gates dslKey key → (key ∈ G ↔ key ∈ H) := by
    intro key gates
    rw [← AList.lookup_isSome,← AList.lookup_isSome,same key gates]
  have matched : methodScopedMatches G dslKey = methodScopedMatches H dslKey := by
    refine List.Perm.eq_of_pairwise ?_ (methodScopedMatches_nested G dslKey) (methodScopedMatches_nested H dslKey) ?_
    · rintro left right - - ⟨lt,-⟩ ⟨gt,-⟩
      omega
    · refine (List.perm_ext_iff_of_nodup ?_ ?_).mpr fun key => ?_
      · exact (List.perm_insertionSort _ _).nodup_iff.mpr (G.keys_nodup.filter _)
      · exact (List.perm_insertionSort _ _).nodup_iff.mpr (H.keys_nodup.filter _)
      · rw [mem_methodScopedMatches,mem_methodScopedMatches]
        constructor
        · rintro ⟨member,other,covers⟩
          exact ⟨(present key (.inr covers)).mp member,other,covers⟩
        · rintro ⟨member,other,covers⟩
          exact ⟨(present key (.inr covers)).mpr member,other,covers⟩
  have overrides : (methodScopedMatches H dslKey).filter (fun key => isOverrideGuard (G.lookup key)) =
      (methodScopedMatches H dslKey).filter fun key => isOverrideGuard (H.lookup key) := by
    refine List.filter_congr fun key member => ?_
    rw [same key (.inr (mem_methodScopedMatches.mp member).2.2)]
  simp only [resolveGuardKeys,projectGuard_toList,present projectGuardKey (.inl rfl),matched,overrides]

theorem mem_resolveGuardKeys_gates (member : key ∈ resolveGuardKeys G dslKey mode) : Gates dslKey key := by
  simp only [resolveGuardKeys] at member
  have matched : ∀ key ∈ methodScopedMatches G dslKey, Gates dslKey key := fun key inside =>
    .inr (mem_methodScopedMatches.mp inside).2.2
  split at member
  · rename_i overriding
    have nonempty := List.isEmpty_eq_false_iff.mp (by simpa only [Bool.not_eq_true'] using overriding)
    obtain ⟨best,inside,found,_⟩ := maxByKey_spec String.utf8ByteSize _ nonempty
    rw [found,Option.toList_some,List.mem_singleton] at member
    exact member ▸ matched best (List.mem_filter.mp inside).1
  · rcases List.mem_append.mp member with outer | inner
    · rw [projectGuard_toList] at outer
      split at outer
      · exact .inl (List.mem_singleton.mp outer)
      · cases outer
    · cases mode with
      | stack => exact matched key inner
      | closestOnly =>
        exact matched key (List.mem_of_getLast? (Option.mem_toList.mp inner))

theorem applicableGuards_eq (guards : GuardDsls) (mode : GuardMode) (project dslKey : String) :
    applicableGuards guards mode project dslKey =
      (resolveGuardKeys (projectGuardsOf guards project) dslKey mode).filterMap fun key =>
        ((projectGuardsOf guards project).lookup key).map (key,·) := by
  rw [← guardKeysForDsl_eq]
  unfold applicableGuards
  split
  · rename_i none
    simp only [guardKeysForDsl,none,List.filterMap_nil]
  · rename_i projectGuards found
    simp only [projectGuardsOf,found,Option.getD_some]

theorem find_guard (out : LoadedProjects) (project key : String) :
    out.find (.guard project key) = (projectGuardsOf out.guards project).lookup key := by
  cases found : out.guards.lookup project with
  | none => simp [LoadedProjects.find,projectGuardsOf,found]
  | some projectGuards => simp [LoadedProjects.find,projectGuardsOf,found]

theorem applicableGuards_of_find {a b : LoadedProjects} (mode : GuardMode)
    (same : ∀ key, Gates dslKey key → a.find (.guard project key) = b.find (.guard project key)) :
    applicableGuards a.guards mode project dslKey = applicableGuards b.guards mode project dslKey := by
  simp only [find_guard] at same
  rw [applicableGuards_eq,applicableGuards_eq,resolveGuardKeys_of_gates same]
  refine List.filterMap_congr fun key member => ?_
  rw [same key (mem_resolveGuardKeys_gates member)]

/-- The guards of a chain are in slots that cover the route. -/
theorem mem_applicableGuards_find {out : LoadedProjects} (member : entry ∈ applicableGuards out.guards mode project dslKey) :
    Gates dslKey entry.1 ∧ out.find (.guard project entry.1) = some entry.2 := by
  rw [applicableGuards_eq] at member
  obtain ⟨key,inside,found⟩ := List.mem_filterMap.mp member
  obtain ⟨guard,held,rfl⟩ := Option.map_eq_some_iff.mp found
  exact ⟨mem_resolveGuardKeys_gates inside,(find_guard out project key).trans held⟩

end Chains

theorem firstM_congr {body other : α → Eff σ ε (Option β)} (same : ∀ a ∈ items, other a = body a) :
    Eff.firstM other items = Eff.firstM body items := by
  induction items with
  | nil => rfl
  | cons a rest ih =>
    simp only [Eff.firstM,same a List.mem_cons_self,ih fun b later => same b (List.mem_cons_of_mem _ later)]

section Engines
variable {h : Host} {engine other : Engine} {ctx : Ctx}

theorem guardLoop_same {run run' : Runner} (same : ∀ entry ∈ chain, run' entry.2 ctx = run entry.2 ctx) :
    guardLoop run' ctx skip contract chain = guardLoop run ctx skip contract chain := by
  refine firstM_congr fun entry member => ?_
  simp only [admitGuard,same entry member]

theorem runBody_same (same : ∀ step ∈ steps, other.step step ctx = engine.step step ctx) :
    runBody other ctx steps = runBody engine ctx steps := by
  refine firstM_congr fun step member => ?_
  rw [same step member]

theorem iterateItems_same {b : IterateBody DslStep} (same : ∀ step ∈ b.body, other.step step ctx = engine.step step ctx)
    (items : List Json) : iterateItems h other ctx b items = iterateItems h engine ctx b items := by
  induction items with
  | nil => rfl
  | cons item rest ih => simp only [iterateItems,runBody_same same,ih]

theorem iterateItems_serving (b : IterateBody DslStep) (items : List Json) :
    iterateItems (h.serving trees) engine ctx b items = iterateItems h engine ctx b items := by
  induction items with
  | nil => rfl
  | cons item rest ih => simp only [iterateItems,evaluateOption_serving,ih]

theorem executeIterate_same {s : IterateStep DslStep}
    (same : ∀ step ∈ s.iterate.body, other.step step ctx = engine.step step ctx) :
    executeIterate (h.serving trees) other ctx s = executeIterate h engine ctx s := by
  simp only [executeIterate,evaluate_serving,iterateItems_serving,iterateItems_same same]
  rfl

theorem executeDetach_same {s : DetachStep DslStep}
    (same : ∀ step ∈ s.detach.body, other.step step ctx = engine.step step ctx) :
    executeDetach (h.serving trees) other ctx s = executeDetach h engine ctx s := by
  have cut : ∀ n, runBody other ctx (s.detach.body.take n) = runBody engine ctx (s.detach.body.take n) := fun n =>
    runBody_same fun step member => same step (List.mem_of_mem_take member)
  simp only [executeDetach,cut]
  rfl

theorem executeSingleFlight_same {s : SingleFlightStep DslStep}
    (same : ∀ step ∈ s.singleFlight.body, other.step step ctx = engine.step step ctx) :
    executeSingleFlight (h.serving trees) other ctx s = executeSingleFlight h engine ctx s := by
  simp only [executeSingleFlight,evaluateKey_serving,runBody_same same]
  rfl

section Loads
variable {old new : Nat → LoadedProjects} {reach : String → Dsl → Prop}

/-- Both trees have the same in a slot at every moment, and it is within reach. -/
structure Still (old new : Nat → LoadedProjects) (reach : String → Dsl → Prop) (slot : Slot) : Prop where
  same : ∀ now, (new now).find slot = (old now).find slot
  reached : ∀ now dsl, (old now).find slot = some dsl → reach slot.project dsl

def SameRuns (reach : String → Dsl → Prop) (engine other : Engine) : Prop :=
  ∀ dsl ctx, reach (Ctx.project ctx) dsl → other.run dsl ctx = engine.run dsl ctx

theorem consult_bind (answer : Nat → α) (f : α → M β) (s : St) :
    (consult answer >>= f) s = f (answer s.clock) { s with clock := s.clock + 1 } := rfl

theorem invokeDefaultExceptionDsl_same (runs : SameRuns reach engine other)
    (still : Still old new reach (.route cfg.project (h.uppercase cfg.requestType)
      (h.uppercase cfg.requestType ++ "/" ++ Text.trimMatches cfg.dsl '/'))) :
    invokeDefaultExceptionDsl (h.serving new) other ctx cfg status body failed =
      invokeDefaultExceptionDsl (h.serving old) engine ctx cfg status body failed := by
  funext s
  have same : lookupDsl (new s.clock).http cfg.project _ _ = lookupDsl (old s.clock).http cfg.project _ _ :=
    still.same s.clock
  unfold invokeDefaultExceptionDsl
  rw [consult_bind,consult_bind]
  dsimp only [Host.serving]
  rw [same]
  cases found : lookupDsl (old s.clock).http cfg.project _ _ with
  | none => rfl
  | some dsl =>
    dsimp only
    rw [runs dsl _ (still.reached s.clock dsl found)]

theorem executeHttpWith_same (runs : SameRuns reach engine other) (s : HttpStep)
    (still : ∀ slot, (DslStep.http s).Asks h ctx.project slot → Still old new reach slot) :
    executeHttpWith (h.serving new) other ctx send s = executeHttpWith (h.serving old) engine ctx send s := by
  have reported : reportFailure (h.serving new) other ctx = reportFailure (h.serving old) engine ctx := by
    funext response
    have kept : ∀ trees, (h.serving trees).defaultExceptionDsl = h.defaultExceptionDsl := fun _ => rfl
    unfold reportFailure
    cases configured : h.defaultExceptionDsl with
    | none => simp only [kept,configured]
    | some cfg =>
      have slot := still (.route cfg.project _ _) ⟨cfg,configured,rfl,rfl,rfl⟩
      simp only [kept,configured,invokeDefaultExceptionDsl_same runs slot]
  simp only [executeHttpWith,resolveArgs_serving,reported]
  rfl

theorem callTarget_same (runs : SameRuns reach engine other) (t : TemplateStep) (child : Ctx)
    (own : child.project = ctx.project) (called : reach ctx.project target)
    (still : ∀ key, Gates (templateKey h t) key → Still old new reach (.guard ctx.project key)) :
    callTarget (h.serving new) other ctx t target child = callTarget (h.serving old) engine ctx t target child := by
  funext s
  have chain : applicableGuards ((h.serving new).loadGuards s.clock) (h.serving new).guardsMode ctx.project
      (templateKey (h.serving new) t) = applicableGuards (old s.clock).guards h.guardsMode ctx.project (templateKey h t) :=
    applicableGuards_of_find h.guardsMode fun key gates => (still key gates).same s.clock
  have loop : guardLoop other.run child true (fun _ => .ok ())
        (applicableGuards (old s.clock).guards h.guardsMode ctx.project (templateKey h t)) =
      guardLoop engine.run child true (fun _ => .ok ())
        (applicableGuards (old s.clock).guards h.guardsMode ctx.project (templateKey h t)) := by
    refine guardLoop_same fun entry member => ?_
    obtain ⟨gates,held⟩ := mem_applicableGuards_find member
    exact runs entry.2 child (own ▸ (still entry.1 gates).reached s.clock entry.2 held)
  unfold callTarget
  rw [consult_bind,consult_bind,chain,templateGuards,templateGuards,loop,runs target child (own ▸ called)]
  rfl

theorem executeTemplate_same (runs : SameRuns reach engine other) (t : TemplateStep)
    (still : ∀ slot, (DslStep.template t).Asks h ctx.project slot → Still old new reach slot) :
    executeTemplate (h.serving new) other ctx t = executeTemplate (h.serving old) engine ctx t := by
  have slot := still (.route ctx.project _ _) ⟨rfl,rfl,rfl⟩
  funext s
  have same : lookupDsl (new s.clock).http ctx.project _ _ = lookupDsl (old s.clock).http ctx.project _ _ :=
    slot.same s.clock
  unfold executeTemplate
  rw [consult_bind,consult_bind,evaluateMapArg_serving,evaluateMapArg_serving]
  dsimp only [Host.serving]
  rw [same]
  cases found : lookupDsl (old s.clock).http ctx.project _ _ with
  | none => rfl
  | some target =>
    refine congrFun (bind_congr fun body => bind_congr fun query => bind_congr fun headers => ?_) _
    exact callTarget_same runs t (templateChild h ctx body query headers) rfl
      (slot.reached s.clock target found) fun key gates => still (.guard ctx.project key) ⟨rfl,gates⟩

/-- Two engines do the same with the DSLs within reach, and with the steps that ask for nothing else. -/
structure SameEngine (h : Host) (old new : Nat → LoadedProjects) (reach : String → Dsl → Prop) (engine other : Engine) :
    Prop where
  run : SameRuns reach engine other
  step : ∀ step ctx, (∀ slot, step.AsksWithin h (Ctx.project ctx) slot → Still old new reach slot) →
    other.step step ctx = engine.step step ctx

theorem asks_of_body {step part : DslStep} {body : List DslStep} (flat : step.flatten = step :: flattenBody body)
    (member : part ∈ body) (asks : part.AsksWithin h project slot) : step.AsksWithin h project slot := by
  obtain ⟨inner,within,asks⟩ := asks
  exact ⟨inner,flat ▸ List.mem_cons_of_mem _ (mem_flattenBody member within),asks⟩

/-- One step: what it runs in a body, a template or the exception DSL is within reach. -/
theorem routedStep_same (alike : SameEngine h old new reach engine other) (step : DslStep)
    (still : ∀ slot, step.AsksWithin h ctx.project slot → Still old new reach slot) :
    routedStep (h.serving new) send sendAll other step ctx =
      routedStep (h.serving old) send sendAll engine step ctx := by
  have own : ∀ slot, step.Asks h ctx.project slot → Still old new reach slot := fun slot asks =>
    still slot ⟨step,step.mem_flatten,asks⟩
  have nested : ∀ body, step.flatten = step :: flattenBody body → ∀ part ∈ body,
      other.step part ctx = engine.step part ctx := fun body flat part member =>
    alike.step part ctx fun slot asks => still slot (asks_of_body flat member asks)
  refine bind_congr fun _ => ?_
  cases step with
  | assign s => simp only [executeSingleStepImpl,executeAssign_serving]
  | returnStep s => simp only [executeSingleStepImpl,executeReturn_serving]
  | http s => exact executeHttpWith_same alike.run s own
  | httpMock s => simp only [executeSingleStepImpl,executeHttpMock_serving]
  | switch s => simp only [executeSingleStepImpl,executeSwitch_serving]
  | log s => simp only [executeSingleStepImpl,executeLog_serving]
  | template t => exact executeTemplate_same alike.run t own
  | state s => simp only [executeSingleStepImpl,executeState_serving]
  | iterate s =>
    have same := nested s.iterate.body (by simp [DslStep.flatten])
    exact (executeIterate_same same).trans (executeIterate_same fun _ _ => rfl).symm
  | parallelHttp s => simp only [executeParallelHttpWith_serving]
  | detach s =>
    have same := nested s.detach.body (by simp [DslStep.flatten])
    exact (executeDetach_same same).trans (executeDetach_same fun _ _ => rfl).symm
  | wsSend s => simp only [executeSingleStepImpl,executeWsSend_serving]
  | wsTag s => simp only [executeSingleStepImpl,executeWsTag_serving]
  | singleFlight s =>
    have same := nested s.singleFlight.body (by simp [DslStep.flatten])
    exact (executeSingleFlight_same same).trans (executeSingleFlight_same fun _ _ => rfl).symm
  | declaration s => rfl

theorem runLoop_same {execute execute' : DslStep → Ctx → M StepResult}
    (same : ∀ name step, dsl.getStep name = some step → execute' step ctx = execute step ctx) (budget index : Nat)
    (recursions : StringMap Nat) :
    runLoop (h.serving new) execute' dsl ctx budget index recursions =
      runLoop (h.serving old) execute dsl ctx budget index recursions := by
  induction budget generalizing index recursions with
  | zero => rfl
  | succ budget ih =>
    unfold runLoop
    split
    · rfl
    · rename_i name _
      cases held : dsl.getStep name with
      | none => rfl
      | some step =>
        have taken : takeStep execute' dsl ctx name step index = takeStep execute dsl ctx name step index := by
          simp only [takeStep,perform,same name step held]
        simp only [taken,ih]
        rfl

end Loads

end Engines

section Runs
variable {h : Host} {old new : Nat → LoadedProjects} {reach : String → Dsl → Prop} {client : HttpClient} {r : Router}

/-- Without self-origins no request is answered from a tree. -/
theorem requestWithCt_serving (external : client.selfOrigins = []) (run run' : Runner) (tree tree' : Tree) :
    requestWithCt (h.serving new) client r run tree = requestWithCt (h.serving old) client r run' tree' := by
  funext request
  simp only [requestWithCt,isSelf_external external,Bool.false_eq_true,false_and,if_false]
  rfl

/-- The DSLs within reach ask for slots that stay as they are. -/
theorem routed_same (external : client.selfOrigins = [])
    (closed : ∀ project dsl, reach project dsl → ∀ slot, dsl.Asks h project slot → Still old new reach slot)
    (tree tree' : Tree) (fuel : Nat) : SameEngine h old new reach (routed (h.serving old) client r tree fuel)
      (routed (h.serving new) client r tree' fuel) := by
  induction fuel with
  | zero => exact ⟨fun _ _ _ => rfl,fun _ _ _ => rfl⟩
  | succ fuel ih =>
    have stepped : ∀ step ctx, (∀ slot, step.AsksWithin h (Ctx.project ctx) slot → Still old new reach slot) →
        (routed (h.serving new) client r tree' (fuel + 1)).step step ctx =
          (routed (h.serving old) client r tree (fuel + 1)).step step ctx := by
      intro step ctx still
      dsimp only [routed]
      rw [requestWithCt_serving external _ (routed (h.serving old) client r tree fuel).run tree' tree]
      exact routedStep_same ih step still
    refine ⟨fun dsl ctx within => ?_,stepped⟩
    refine congrArg (RunEnd.result <$> ·) (bind_congr fun _ => runLoop_same (fun name step held => ?_) _ _ _)
    exact stepped step ctx fun slot asks => closed ctx.project dsl within slot ⟨name,step,held,asks⟩

/-- A run without self-calls is not changed by reloads that leave the slots it can ask for alone. -/
theorem run_outside_reach (external : client.selfOrigins = [])
    (still : ∀ slot, RunAsks h old project dsl slot → ∀ now, (new now).find slot = (old now).find slot)
    (tree tree' : Tree) (fuel : Nat) (ctx : Ctx) (own : ctx.project = project) :
    (routed (h.serving new) client r tree' fuel).run dsl ctx =
      (routed (h.serving old) client r tree fuel).run dsl ctx := by
  have closed : ∀ p caller, Called h old project dsl p caller → ∀ slot, caller.Asks h p slot →
      Still old new (Called h old project dsl) slot := fun p caller called slot asks =>
    ⟨still slot ⟨p,caller,called,asks⟩,fun _ _ found => .call called asks found⟩
  exact (routed_same external closed tree tree' fuel).run dsl ctx (own ▸ .start)

end Runs

end Ruuter
