import Ruuter.Steps

/-! The step engine (`src/steps/engine.rs`): dispatch, the run loop, and the engine as the
fixed point of the two, cut off at a nesting bound. -/
namespace Ruuter

def DslStep.typeName : DslStep → String
  | .assign _ => "assign"
  | .returnStep _ => "return"
  | .http _ => "http"
  | .httpMock _ => "http_mock"
  | .switch _ => "switch"
  | .log _ => "log"
  | .template _ => "template"
  | .state _ => "state"
  | .iterate _ => "iterate"
  | .parallelHttp _ => "parallel_http"
  | .detach _ => "detach"
  | .wsSend _ => "ws_send"
  | .wsTag _ => "ws_tag"
  | .singleFlight _ => "single_flight"
  | .declaration _ => "declaration"

def executeSingleStepImpl (h : Host) (engine : Engine) (step : DslStep) (ctx : Ctx) : M StepResult :=
  match step with
  | .assign s => executeAssign h ctx s
  | .returnStep s => executeReturn h ctx s
  | .http s => executeHttp h engine ctx s
  | .httpMock s => executeHttpMock h ctx s
  | .switch s => executeSwitch h ctx s
  | .log s => executeLog h ctx s
  | .template s => executeTemplate h engine ctx s
  | .state s => executeState h ctx s
  | .iterate s => executeIterate h engine ctx s
  | .parallelHttp s => executeParallelHttp h ctx s
  | .detach s => executeDetach h engine ctx s
  | .wsSend s => executeWsSend h ctx s
  | .wsTag s => executeWsTag h ctx s
  | .singleFlight s => executeSingleFlight h engine ctx s
  | .declaration _ => pure {}

def executeSingleStep (h : Host) (engine : Engine) (step : DslStep) (ctx : Ctx) : M StepResult := do
  emit (.dispatched step)
  executeSingleStepImpl h engine step ctx

/-- How a run ends. -/
inductive RunEnd
  | endOfSteps
  | nextEnd
  | iterationCap
  | returned (result : StepResult)

/-- The answer of a run. Every end but a `return` gives an empty 200. -/
def RunEnd.result : RunEnd → DslExecutionResult
  | .returned r =>
    { value := r.returnValue
      status := r.returnStatus.getD 200
      headers := r.returnHeaders.getD ∅
      wrapper := r.returnWrapper }
  | .endOfSteps | .nextEnd | .iterationCap => {}

/-- Where a step leads. -/
inductive Move
  | goto (index : Nat)
  | stop (ended : RunEnd)

def perStepCap (step : DslStep) (global : UInt32) : UInt32 :=
  match step.base.maxRecursions with
  | some own => min own global
  | none => global

section Run
variable (h : Host) (execute : DslStep → Ctx → M StepResult) (dsl : Dsl) (ctx : Ctx)

/-- The move after a step that did not return. -/
def followNext (name : String) (index : Nat) : Option String → M Move
  | none => pure (.goto (index + 1))
  | some next =>
    if next = "end" then pure (.stop .nextEnd)
    else
      match dsl.stepNames.idxOf? next with
      | some target => pure (.goto target)
      | none =>
        Eff.throw (.dslExecution name ("step '" ++ name ++ "' jumped to `next: " ++ next ++
          "`, but no step named '" ++ next ++ "' exists in this DSL. Fix the target name, " ++
          "add the step, or use `next: end` to terminate."))

def sleepFor : Option UInt64 → M Unit
  | some ms => emit (.slept ms)
  | none => pure ()

/-- A skipped step does nothing; the error of any other step is wrapped. -/
def perform (name : String) (step : DslStep) : M StepResult :=
  if step.base.skip.getD false then pure {}
  else Eff.mapError (.stepContext name step.typeName ctx.project) (execute step ctx)

def triggerReload (base : BaseStepFields) : M Unit :=
  if !base.skip.getD false && base.reloadDsl.getD false then emit .reloaded else pure ()

/-- One round of the run loop for a step below its recursion cap. -/
def takeStep (name : String) (step : DslStep) (index : Nat) : M Move := do
  sleepFor step.base.sleep
  let result ← perform execute ctx name step
  if result.shouldReturn then pure (.stop (.returned result))
  else
    triggerReload step.base
    followNext dsl name index result.nextStep

/-- The run loop. A step at its recursion cap is passed over, at the cost of a round. -/
def runLoop : (budget index : Nat) → (recursions : StringMap Nat) → M RunEnd
  | 0, index, _ => pure (if index < dsl.stepNames.length then .iterationCap else .endOfSteps)
  | budget + 1, index, recursions =>
    match dsl.stepNames[index]? with
    | none => pure .endOfSteps
    | some name =>
      match dsl.getStep name with
      | none => Eff.throw (.invalidStep ("Step not found: " ++ name))
      | some step =>
        let count := (recursions.lookup name).getD 0
        if (perStepCap step h.maxIterations).toNat ≤ count then runLoop budget (index + 1) recursions
        else do
          match ← takeStep execute dsl ctx name step index with
          | .goto next => runLoop budget next (recursions.insert name (count + 1))
          | .stop ended => pure ended

/-- `StepEngine::run`, with the end it came to. -/
def runToEnd : M RunEnd := do
  emit (.entered dsl)
  runLoop h execute dsl ctx h.maxIterations.toNat 0 ∅

end Run

/-- The engine. Steps and DSLs nested deeper than the bound fail with `outOfFuel`. -/
def engine (h : Host) : (fuel : Nat) → Engine
  | 0 => { run := fun _ _ => Eff.throw .outOfFuel, step := fun _ _ => Eff.throw .outOfFuel }
  | fuel + 1 =>
    { run := fun dsl ctx => RunEnd.result <$> runToEnd h (executeSingleStep h (engine h fuel)) dsl ctx
      step := executeSingleStep h (engine h fuel) }

end Ruuter
