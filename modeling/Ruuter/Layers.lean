import Ruuter.Frame

/-! The steps that start others. An invariant that is given for every guard stack survives the
executors of `http`, `template`, `iterate`, `detach` and `single_flight` and the run loop,
provided it survives the runs and the steps that they start. -/
namespace Ruuter

/-- The steps of a `do:` block. -/
def DslStep.body : DslStep → List DslStep
  | .iterate s => s.iterate.body
  | .detach s => s.detach.body
  | .singleFlight s => s.singleFlight.body
  | _ => []

/-- A frame for every guard stack, and how the contexts of a run lead from one to another. -/
structure Layers (I : List String → St → Prop) (ok : Json → Prop) : Prop where
  frame : ∀ stack, Frame (I stack) ok
  isolate : I stack s → I [] { s with vars := vars, guardStack := [] }
  rejoin : I stack s → I [] t → I stack { t with vars := s.vars, guardStack := s.guardStack }
  push : I stack s → I (stack ++ [key]) { s with guardStack := s.guardStack ++ [key] }
  pop : I (stack ++ [key]) t → I stack { t with guardStack := t.guardStack.dropLast }

/-- What the executors rely on in the engine they are given. -/
structure Starts (I : List String → St → Prop) (P : DslStep → Prop) (engine : Engine) : Prop where
  run : ∀ stack dsl ctx, Eff.Keeps (I stack) (engine.run dsl ctx)
  step : ∀ stack step ctx, P step → Eff.Keeps (I stack) (engine.step step ctx)

variable {I : List String → St → Prop} {ok : Json → Prop} {P : DslStep → Prop} {h : Host} {ctx : Ctx}

theorem raise_keeps {I : St → Prop} (refusal : Refusal) : Eff.Keeps I refusal.raise := by
  cases refusal with
  | contract e => exact Eff.keeps_throw e
  | stack e => exact Eff.keeps_throw e
  | failed e => exact Eff.keeps_throw e
  | denied result => exact Eff.keeps_pure result

theorem checkGuard_keeps {I : St → Prop} : Eff.Keeps I (checkGuard key) := by
  intro s holds
  rwa [checkGuard_state]

theorem guarded_keeps {I : St → Prop} {loop : M (Option Refusal)} {target : M α} (first : Eff.Keeps I loop)
    (refused : ∀ refusal, Eff.Keeps I (refuse refusal)) (later : Eff.Keeps I target) :
    Eff.Keeps I (guarded loop refuse target) := by
  apply Eff.keeps_bind first
  intro found
  cases found with
  | some refusal => exact refused refusal
  | none => exact later

section Executors
variable {engine : Engine} (layers : Layers I ok)
include layers

theorem isolated_keeps (kept : Eff.Keeps (I []) m) : Eff.Keeps (I stack) (isolated vars m) := by
  refine Eff.keeps_bracket (J := fun _ => I []) ?_ ?_ ?_
  · intro s holds
    exact layers.isolate holds
  · intro s _
    exact kept
  · intro s t holds after
    exact layers.rejoin holds after

theorem inChild_keeps (kept : Eff.Keeps (I stack) m) : Eff.Keeps (I stack) (inChild m) := by
  refine Eff.keeps_bracket (J := fun _ => I stack) ?_ ?_ ?_
  · intro s holds
    exact (layers.frame stack).congr _ _ holds rfl rfl
  · intro s _
    exact kept
  · intro s t _ after
    exact (layers.frame stack).congr _ _ after rfl rfl

theorem inFrame_keeps (kept : Eff.Keeps (I (stack ++ [key])) m) : Eff.Keeps (I stack) (inFrame key m) := by
  refine Eff.keeps_bracket (J := fun _ => I (stack ++ [key])) ?_ ?_ ?_
  · intro s holds
    exact layers.push holds
  · intro s _
    exact kept
  · intro s t _ after
    exact layers.pop after

theorem invokeDefaultExceptionDsl_keeps (starts : Starts I P engine) :
    Eff.Keeps (I stack) (invokeDefaultExceptionDsl h engine ctx cfg status body failedRequestId) := by
  apply Eff.keeps_bind (layers.frame stack).consult
  intro loaded
  cases loaded with
  | none => exact Eff.keeps_throw _
  | some dsls =>
    dsimp only
    split
    · exact Eff.keeps_throw _
    · exact isolated_keeps layers (starts.run _ _ _)

theorem reportFailure_keeps (starts : Starts I P engine) :
    Eff.Keeps (I stack) (reportFailure h engine ctx response) := by
  unfold reportFailure
  split
  · exact Eff.keeps_pure ()
  · apply Eff.keeps_bind (Eff.keeps_attempt (invokeDefaultExceptionDsl_keeps layers starts))
    intro _
    exact Eff.keeps_pure ()

theorem executeHttp_keeps (starts : Starts I P engine) {s : HttpStep}
    (allowed : ∀ value ∈ (DslStep.http s).values, ok value) :
    Eff.Keeps (I stack) (executeHttp h engine ctx s) := by
  rw [DslStep.values] at allowed
  unfold executeHttp executeHttpWith
  split
  · exact Eff.keeps_throw _
  · apply Eff.keeps_bind (resolveArgs_keeps (layers.frame stack) allowed)
    intro args
    apply Eff.keeps_bind (sendRequest_keeps (layers.frame stack))
    intro sent
    refine Eff.keeps_bind (keeps_ofExcept sent) fun response => ?_
    apply Eff.keeps_bind (layers.frame stack).bindResult
    intro _
    split
    · exact Eff.keeps_pure _
    · split
      · exact Eff.keeps_pure _
      · split
        · exact Eff.keeps_pure _
        · exact Eff.keeps_bind (reportFailure_keeps layers starts) fun _ => Eff.keeps_throw _

theorem guardLoop_keeps {run : Runner} (kept : ∀ stack dsl, Eff.Keeps (I stack) (run dsl ctx)) :
    Eff.Keeps (I stack) (guardLoop run ctx skip contract chain) := by
  refine Eff.keeps_firstM fun entry _ => ?_
  refine Eff.keeps_bind Eff.keeps_get fun s => ?_
  split
  · exact Eff.keeps_pure none
  · split
    · exact Eff.keeps_pure _
    · refine Eff.keeps_bind (Eff.keeps_attempt checkGuard_keeps) fun checked => ?_
      cases checked with
      | error e => exact Eff.keeps_pure _
      | ok =>
        apply Eff.keeps_bind (Eff.keeps_attempt (inFrame_keeps layers (kept _ _)))
        intro outcome
        cases outcome with
        | error e => exact Eff.keeps_pure _
        | ok result => exact Eff.keeps_pure _

theorem executeTemplate_keeps (starts : Starts I P engine) {s : TemplateStep}
    (allowed : ∀ value ∈ (DslStep.template s).values, ok value) :
    Eff.Keeps (I stack) (executeTemplate h engine ctx s) := by
  simp only [DslStep.values,List.mem_append] at allowed
  have frame := layers.frame stack
  apply Eff.keeps_bind frame.consult
  intro loaded
  cases loaded with
  | none => exact Eff.keeps_throw _
  | some dsls =>
    dsimp only
    split
    · exact Eff.keeps_throw _
    · rename_i target _
      refine Eff.keeps_bind (evaluateMapArg_keeps frame fun value member =>
        allowed value (.inl (.inl member))) fun body => ?_
      refine Eff.keeps_bind (evaluateMapArg_keeps frame fun value member =>
        allowed value (.inl (.inr member))) fun query => ?_
      refine Eff.keeps_bind (evaluateMapArg_keeps frame fun value member =>
        allowed value (.inr member)) fun headers => ?_
      apply Eff.keeps_bind frame.consult
      intro chain
      refine Eff.keeps_bind (inChild_keeps layers (guarded_keeps ?_ raise_keeps (starts.run _ _ _)))
        fun result => ?_
      · exact guardLoop_keeps layers fun _ _ => starts.run _ _ _
      · exact Eff.keeps_bind frame.bindResult fun _ => Eff.keeps_pure _

omit layers in
theorem runBody_keeps (starts : Starts I P engine) {steps : List DslStep} (permitted : ∀ sub ∈ steps, P sub) :
    Eff.Keeps (I stack) (runBody engine ctx steps) := by
  refine Eff.keeps_firstM fun step member => ?_
  exact Eff.keeps_bind (starts.step _ _ _ (permitted step member)) fun _ => Eff.keeps_pure _

theorem iterateItems_keeps (starts : Starts I P engine) {b : IterateBody DslStep}
    (permitted : ∀ sub ∈ b.body, P sub) (collect : ∀ value ∈ b.collect.toList, ok value) :
    Eff.Keeps (I stack) (iterateItems h engine ctx b items) := by
  have frame := layers.frame stack
  induction items with
  | nil => exact Eff.keeps_pure _
  | cons item rest ih =>
    apply Eff.keeps_bind frame.setVariable
    intro _
    apply Eff.keeps_bind (runBody_keeps starts permitted)
    intro early
    cases early with
    | some result => exact Eff.keeps_pure _
    | none =>
      apply Eff.keeps_bind (evaluateOption_keeps frame collect)
      intro value
      apply Eff.keeps_bind ih
      intro later
      cases later with
      | inl early => exact Eff.keeps_pure _
      | inr later => exact Eff.keeps_pure _

theorem executeIterate_keeps (starts : Starts I P engine) {s : IterateStep DslStep}
    (allowed : ∀ value ∈ (DslStep.iterate s).values, ok value)
    (permitted : ∀ sub ∈ (DslStep.iterate s).body, P sub) :
    Eff.Keeps (I stack) (executeIterate h engine ctx s) := by
  simp only [DslStep.values,List.cons_append,List.mem_cons,List.mem_append] at allowed
  have frame := layers.frame stack
  apply Eff.keeps_bind (frame.evaluates (allowed _ (.inl rfl)))
  intro list
  split
  · dsimp only
    split
    · exact Eff.keeps_throw _
    · refine Eff.keeps_bind (iterateItems_keeps layers starts permitted
        fun value member => allowed value (.inr (.inl member))) fun ended => ?_
      cases ended with
      | inl early => exact Eff.keeps_pure early
      | inr collected => exact Eff.keeps_bind frame.bindResult fun _ => Eff.keeps_pure _
  · exact Eff.keeps_throw _

theorem executeDetach_keeps (starts : Starts I P engine) {s : DetachStep DslStep}
    (permitted : ∀ sub ∈ (DslStep.detach s).body, P sub) :
    Eff.Keeps (I stack) (executeDetach h engine ctx s) := by
  unfold executeDetach
  dsimp only
  split
  · exact Eff.keeps_throw _
  · apply Eff.keeps_bind (layers.frame stack).consult
    intro outcome
    cases outcome with
    | noRegistry => exact Eff.keeps_throw _
    | overflow cap => exact Eff.keeps_throw _
    | spawned cutOff =>
      refine Eff.keeps_bind Eff.keeps_get fun now => ?_
      refine Eff.keeps_bind (Eff.keeps_attempt (isolated_keeps layers (runBody_keeps starts ?_))) fun _ =>
        Eff.keeps_pure _
      intro sub taken
      exact permitted sub (List.mem_of_mem_take taken)

theorem executeSingleFlight_keeps (starts : Starts I P engine) {s : SingleFlightStep DslStep}
    (allowed : ∀ value ∈ (DslStep.singleFlight s).values, ok value)
    (permitted : ∀ sub ∈ (DslStep.singleFlight s).body, P sub) :
    Eff.Keeps (I stack) (executeSingleFlight h engine ctx s) := by
  simp only [DslStep.values,List.mem_cons] at allowed
  have frame := layers.frame stack
  apply Eff.keeps_bind (evaluateKey_keeps frame (allowed _ (.inl rfl)))
  intro key
  apply Eff.keeps_bind frame.consult
  intro role
  split
  · refine Eff.keeps_bind (Eff.keeps_attempt (runBody_keeps starts permitted)) fun ended => ?_
    refine Eff.keeps_bind Eff.keeps_get fun now => ?_
    refine Eff.keeps_bind (frame.emits trivial) fun _ => ?_
    refine Eff.keeps_bind (keeps_ofExcept ended) fun early => ?_
    cases early with
    | some result => exact Eff.keeps_pure result
    | none => exact Eff.keeps_pure _
  · exact Eff.keeps_bind (bindReceived_keeps frame) fun _ => Eff.keeps_pure _
  · exact Eff.keeps_throw _
  · exact Eff.keeps_throw _
  · exact Eff.keeps_throw _

theorem executeSingleStepImpl_keeps (starts : Starts I P engine) (stack : List String) {step : DslStep}
    (allowed : ∀ value ∈ step.values, ok value) (permitted : ∀ sub ∈ step.body, P sub)
    (either : (∀ value, ok value) ∨ step.wholeMapReturn = false) :
    Eff.Keeps (I stack) (executeSingleStepImpl h engine step ctx) := by
  cases step with
  | http s => exact executeHttp_keeps layers starts allowed
  | template s => exact executeTemplate_keeps layers starts allowed
  | iterate s => exact executeIterate_keeps layers starts allowed permitted
  | detach s => exact executeDetach_keeps layers starts permitted
  | singleFlight s => exact executeSingleFlight_keeps layers starts allowed permitted
  | _ => exact executeLeaf_keeps (layers.frame stack) trivial allowed either

end Executors

section Loop
variable {I : St → Prop} {execute : DslStep → Ctx → M StepResult} {dsl : Dsl}

theorem perform_keeps (kept : Eff.Keeps I (execute step ctx)) :
    Eff.Keeps I (perform execute ctx name step) := by
  unfold perform
  split
  · exact Eff.keeps_pure _
  · exact Eff.keeps_mapError kept

theorem takeStep_keeps (frame : Frame I ok) (kept : Eff.Keeps I (execute step ctx)) :
    Eff.Keeps I (takeStep execute dsl ctx name step index) := by
  apply Eff.keeps_bind (sleepFor_keeps frame)
  intro _
  apply Eff.keeps_bind (perform_keeps kept)
  intro result
  split
  · exact Eff.keeps_pure _
  · exact Eff.keeps_bind (triggerReload_keeps frame) fun _ => followNext_keeps

/-- The loop preserves what every round preserves. -/
theorem runLoop_keeps (kept : ∀ name step index, dsl.getStep name = some step →
      Eff.Keeps I (takeStep execute dsl ctx name step index)) :
    Eff.Keeps I (runLoop h execute dsl ctx budget index recursions) := by
  induction budget generalizing index recursions with
  | zero => exact Eff.keeps_pure _
  | succ budget ih =>
    unfold runLoop
    split
    · exact Eff.keeps_pure _
    · split
      · exact Eff.keeps_throw _
      · rename_i step found
        dsimp only
        split
        · exact ih
        · apply Eff.keeps_bind (kept _ step _ found)
          intro move
          cases move with
          | goto next => exact ih
          | stop ended => exact Eff.keeps_pure ended

end Loop

theorem sleepFor_eq (ms : Option UInt64) (s : St) : sleepFor ms s = (.ok (),(sleepFor ms s).2) := by
  cases ms <;> rfl

/-- The engine keeps the invariant at every nesting bound, if the dispatch of a permitted step
does, and the entry of a DSL together with its run. -/
theorem engine_starts (layers : Layers I fun _ => True)
    (dispatched : ∀ stack step, P step → Eff.Keeps (I stack) (emit (.dispatched step)))
    (body : ∀ step, P step → ∀ sub ∈ step.body, P sub)
    (entered : ∀ fuel, Starts I P (engine h fuel) → ∀ stack dsl ctx,
      Eff.Keeps (I stack) (runToEnd h (executeSingleStep h (engine h fuel)) dsl ctx)) (fuel : Nat) :
    Starts I P (engine h fuel) := by
  induction fuel with
  | zero => exact ⟨fun _ _ _ => Eff.keeps_throw _,fun _ _ _ _ => Eff.keeps_throw _⟩
  | succ fuel ih =>
    constructor
    · intro stack dsl ctx
      exact Eff.keeps_map (entered _ ih stack dsl ctx) _
    · intro stack step ctx permitted
      refine Eff.keeps_bind (dispatched stack step permitted) fun _ => ?_
      exact executeSingleStepImpl_keeps layers ih stack (fun _ _ => trivial) (body step permitted)
        (.inl fun _ => trivial)

end Ruuter
