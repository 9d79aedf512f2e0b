import Ruuter.Layers
import Ruuter.Provenance

/-! Expression injection: every executor evaluates only what its step holds, so that a run
executes only scripts written in the DSLs it entered, except after a `return` with whole-map
headers. -/
namespace Ruuter

/-- The engine keeps every provenance invariant. -/
structure EngineKeeps (engine : Engine) : Prop where
  run : ∀ start stack inside spoiled dsl ctx, Eff.Keeps (Inv start stack inside spoiled) (engine.run dsl ctx)
  step : ∀ start stack inside spoiled step ctx, (∀ value ∈ step.values, Allowed inside spoiled value) →
    Eff.Keeps (Inv start stack inside spoiled) (engine.step step ctx)

variable {start : List Event} {stack : List String} {inside : Dsl → Prop} {spoiled : Prop} {h : Host}
  {ctx : Ctx}

section Executors
variable {engine : Engine}

theorem inv_layers : Layers (Inv start · inside spoiled) (Allowed inside spoiled) where
  frame _ := inv_frame
  isolate inv := { inv with stack_eq := rfl }
  rejoin inv after := { after with stack_eq := inv.stack_eq }
  push inv := { inv with stack_eq := by rw [inv.stack_eq] }
  pop after := { after with stack_eq := by rw [after.stack_eq,List.dropLast_concat] }

theorem EngineKeeps.starts (keeps : EngineKeeps engine) :
    Starts (Inv start · inside spoiled) (fun step => ∀ value ∈ step.values, Allowed inside spoiled value)
      engine where
  run _ _ _ := keeps.run _ _ _ _ _ _
  step _ _ _ := keeps.step _ _ _ _ _ _

theorem mem_bodyValues {steps : List DslStep} : value ∈ bodyValues steps ↔
    ∃ step ∈ steps, value ∈ step.values := by
  induction steps with
  | nil => simp [bodyValues]
  | cons step rest ih => simp [bodyValues,ih]

/-- A step holds the values of the steps in its body. -/
theorem values_of_body {step : DslStep} (member : sub ∈ step.body) (held : value ∈ sub.values) :
    value ∈ step.values := by
  have inBody : value ∈ bodyValues step.body := mem_bodyValues.mpr ⟨sub,member,held⟩
  cases step with
  | iterate s => exact List.mem_append_right _ inBody
  | detach s => exact inBody
  | singleFlight s => exact List.mem_cons_of_mem _ inBody
  | _ => cases member

/-- A step evaluates what it holds. Its own `dispatched` event decides whether the run is
still plain. -/
theorem executeSingleStep_keeps (keeps : EngineKeeps engine) {step : DslStep}
    (allowed : ∀ value ∈ step.values, Allowed inside spoiled value) :
    Eff.Keeps (Inv start stack inside spoiled) (executeSingleStep h engine step ctx) := by
  intro s inv
  let marked : Prop := spoiled ∨ step.wholeMapReturn = true
  have dispatched : Inv start stack inside marked { s with trace := s.trace ++ [.dispatched step] } := by
    apply inv.emit
    intro trace record
    have grown : Record inside spoiled (trace ++ [.dispatched step]) := record.snoc fun _ => trivial
    refine { grown with not_plain := ?_ }
    rintro (held | whole) plain
    · exact record.not_plain held plain.of_append
    · rw [plain step (by simp)] at whole
      cases whole
  have permitted : ∀ value ∈ step.values, Allowed inside marked value := by
    intro value member
    rcases allowed value member with held | written
    · exact .inl (.inl held)
    · exact .inr written
  have either : marked ∨ step.wholeMapReturn = false := by
    cases eq : step.wholeMapReturn with
    | false => exact .inr rfl
    | true => exact .inl (.inr eq)
  have body : ∀ sub ∈ step.body, ∀ value ∈ sub.values, Allowed inside marked value :=
    fun sub member value held => permitted value (values_of_body member held)
  exact (executeSingleStepImpl_keeps inv_layers keeps.starts stack permitted body
    (either.imp_left fun held _ => .inl held) _ dispatched).weaken (fun _ given => given) .inl

end Executors

section Loop
variable {execute : DslStep → Ctx → M StepResult} {dsl : Dsl}

theorem values_of_getStep (found : dsl.getStep name = some step) :
    ∀ value ∈ step.values, value ∈ dsl.values := by
  intro value member
  exact List.mem_flatMap.mpr ⟨⟨name,step⟩,AList.mem_lookup_iff.mp found,member⟩

/-- Entering a DSL makes its own text available for the run. -/
theorem runToEnd_keeps
    (kept : ∀ step, (∀ value ∈ step.values, value ∈ dsl.values) →
      Eff.Keeps (Inv start stack (fun d => inside d ∨ d = dsl) spoiled) (execute step ctx)) :
    Eff.Keeps (Inv start stack inside spoiled) (runToEnd h execute dsl ctx) := by
  intro s inv
  have entered : Inv start stack (fun d => inside d ∨ d = dsl) spoiled
      { s with trace := s.trace ++ [.entered dsl] } := by
    apply inv.emit
    intro trace record
    have grown : Record inside spoiled (trace ++ [.entered dsl]) := record.snoc fun _ => trivial
    refine { grown with entered := ?_ }
    rintro d (given | rfl)
    · exact List.mem_append_left _ (record.entered d given)
    · simp
  refine Inv.weaken (runLoop_keeps ?_ _ entered) (fun _ given => .inl given) id
  intro name step index found
  exact takeStep_keeps inv_frame (kept step (values_of_getStep found))

end Loop

/-- The engine keeps the invariant at every nesting bound. -/
theorem engine_keeps (h : Host) (fuel : Nat) : EngineKeeps (engine h fuel) := by
  induction fuel with
  | zero =>
    exact ⟨fun _ _ _ _ _ _ => Eff.keeps_throw _,fun _ _ _ _ _ _ _ => Eff.keeps_throw _⟩
  | succ fuel ih =>
    constructor
    · intro start stack inside spoiled dsl ctx
      refine Eff.keeps_map (runToEnd_keeps fun step held => ?_) _
      exact executeSingleStep_keeps ih fun value member => .inr ⟨dsl,.inr rfl,held value member⟩
    · intro start stack inside spoiled step ctx allowed
      exact executeSingleStep_keeps ih allowed

theorem initial_inv (s : St) : Inv s.trace s.guardStack (fun _ => False) False s where
  stack_eq := rfl
  record := ⟨[],by simp,by simp,by simp,by simp⟩

/-- A run leaves the guard stack as it found it. -/
theorem engine_balanced (h : Host) (fuel : Nat) : Balanced (engine h fuel).run := by
  intro dsl ctx s
  exact ((engine_keeps h fuel).run s.trace s.guardStack (fun _ => False) False dsl ctx s
    (initial_inv s)).stack_eq

/-- The scripts a run executed. -/
def scriptsRun (trace : List Event) : List String :=
  trace.filterMap fun event =>
    match event with
    | .script source => some source
    | _ => none

/-- The texts of the DSLs a run entered. -/
def textsEntered (trace : List Event) : List String :=
  trace.flatMap fun event =>
    match event with
    | .entered dsl => dsl.texts
    | _ => []

/-- Every script stands in the text of an entered DSL, and every evaluated value is written
in one. -/
structure InjectionFree (trace : List Event) : Prop where
  scripts : ∀ source ∈ scriptsRun trace, ∃ text ∈ textsEntered trace, source ∈ scriptSources text
  values : ∀ value, .evaluated value ∈ trace → ∃ dsl, .entered dsl ∈ trace ∧ value ∈ dsl.values

theorem injectionFree_of_justified (justified : ∀ event ∈ trace, Justified trace event) :
    InjectionFree trace where
  scripts := by
    intro source member
    obtain ⟨event,found,eq⟩ := List.mem_filterMap.mp member
    cases event with
    | script other =>
      cases eq
      obtain ⟨dsl,entered,text,written,runs⟩ := justified _ found
      exact ⟨text,List.mem_flatMap.mpr ⟨.entered dsl,entered,written⟩,runs⟩
    | _ => cases eq
  values := fun value member => justified _ member

/-- In every run, up to any point before which no `return` with whole-map headers was
dispatched, what is evaluated and executed is written in the DSLs entered so far. -/
theorem plain_run_injectionFree (h : Host) (fuel : Nat) (dsl : Dsl) (ctx : Ctx) (s : St) :
    ∃ later, ((engine h fuel).run dsl ctx s).2.trace = s.trace ++ later ∧
      ∀ past, past <+: later → Plain past → InjectionFree past := by
  have kept := (engine_keeps h fuel).run s.trace s.guardStack (fun _ => False) False dsl ctx s
    (initial_inv s)
  obtain ⟨later,eq,record⟩ := kept.record
  refine ⟨later,eq,?_⟩
  intro past before plain
  exact injectionFree_of_justified (record.justified past before plain)

/-- A host whose scripts can read the request body. -/
def bodyHost : Host where
  maxIterations := 8
  js := fun _ source ctx _ =>
    if source = "incoming.body" then
      .ok (.object (ctx.requestBody.entries.map fun entry => (entry.1,entry.2)))
    else .ok .null

/-- A DSL that answers with the request body as its headers. -/
def echoDsl : Dsl where
  steps := (∅ : StringMap DslStep).insert "reply" (.returnStep
    { returnValue := .string "ok"
      headers := some (.string "$\x7bincoming.body\x7d") })

/-- A request whose body holds an expression. -/
def injectingRequest : Ctx where
  requestBody := (∅ : StringMap Json).insert "x-note" (.string "$\x7bsecrets()\x7d")

/-- The expression in the request body is executed. -/
theorem echoDsl_executes_request_text :
    "secrets()" ∈ scriptsRun ((engine bodyHost 1).run echoDsl injectingRequest {}).2.trace ∧
      ¬ InjectionFree ((engine bodyHost 1).run echoDsl injectingRequest {}).2.trace := by
  have stray : ¬ ∀ source ∈ scriptsRun ((engine bodyHost 1).run echoDsl injectingRequest {}).2.trace,
      ∃ text ∈ textsEntered ((engine bodyHost 1).run echoDsl injectingRequest {}).2.trace,
        source ∈ scriptSources text := by
    decide +kernel
  exact ⟨by decide +kernel,fun free => stray free.scripts⟩

end Ruuter
