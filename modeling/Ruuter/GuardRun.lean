import Ruuter.Injection

/-! When a guard run admits: `engine.run` returns with a status below 400. The status of a run
is decided by how the run ends and, for a `return`, by what its `status:` evaluates to. -/
namespace Ruuter

/-- The integer a value is, if it is one. -/
def Json.asInt? : Json → Option Int
  | .number (.posInt n) => some n.toNat
  | .number (.negInt k) => some (-(k.val + 1))
  | _ => none

/-- The ends after which a run may admit. An evaluated `status:` that is no integer counts as
absent, and a run cut off by `max_iterations` answers with an empty 200. -/
def RunEnd.MayAdmit : RunEnd → Prop
  | .endOfSteps | .nextEnd | .iterationCap => True
  | .returned r => ∀ value n, r.statusValue = some value → value.asInt? = some n → ¬ (400 ≤ n ∧ n < 2 ^ 16)

/-- The ends after which a fail-closed run would admit. -/
def RunEnd.FailClosed : RunEnd → Prop
  | .endOfSteps | .nextEnd => True
  | .iterationCap => False
  | .returned r => ∀ value, r.statusValue = some value → ∃ n, value.asInt? = some n ∧ n < 400

/-- The status code of a result comes from its evaluated `status:`. -/
def StepResult.Consistent (r : StepResult) : Prop := r.returnStatus = r.statusValue.bind statusOf

/-- The result of a `return` step. -/
def StepResult.returning (value : Json) (statusValue : Option Json) (headers : Option (StringMap String))
    (wrapper : Option Bool) : StepResult :=
  { shouldReturn := true
    returnValue := some value
    returnStatus := statusValue.bind statusOf
    returnHeaders := headers
    returnWrapper := wrapper
    statusValue }

/-- The targets a step may jump to besides its `next:`. -/
def DslStep.redirects : DslStep → List String
  | .http s => s.error.toList
  | .switch s => s.switch.map (·.next)
  | _ => []

/-- What a step comes to: a `return`, its own `next:`, or one of its other targets. -/
def DslStep.Gives (step : DslStep) (r : StepResult) : Prop :=
  (r.shouldReturn = true ∧ r.Consistent) ∨ r = { nextStep := step.explicitNext } ∨
    ∃ target ∈ step.redirects, r = { nextStep := some target }

/-- The same, with what a `return` satisfies left open. -/
def DslStep.GivesBy (P : StepResult → Prop) (step : DslStep) (r : StepResult) : Prop :=
  (r.shouldReturn = true ∧ P r) ∨ r = { nextStep := step.explicitNext } ∨
    ∃ target ∈ step.redirects, r = { nextStep := some target }

theorem DslStep.GivesBy.holds {step : DslStep} (gives : step.GivesBy P r)
    (returns : r.shouldReturn = true) : P r := by
  obtain ⟨_,holds⟩ | rfl | ⟨target,_,rfl⟩ := gives
  · exact holds
  · cases returns
  · cases returns

section Executors
variable {h : Host} {engine : Engine} {ctx : Ctx} {P : StepResult → Prop}

theorem returns_next (step : DslStep) :
    Eff.Returns (step.GivesBy P) (pure { nextStep := step.explicitNext } : M StepResult) :=
  Eff.returns_pure (.inr (.inl rfl))

theorem returns_ofExcept {outcome : Except RuuterError α} (holds : ∀ a, outcome = .ok a → Q a) :
    Eff.Returns Q (ofExcept outcome) := by
  cases outcome with
  | ok a => exact Eff.returns_pure (holds a rfl)
  | error e => exact Eff.returns_throw e

theorem executeReturn_returns
    (kept : ∀ value statusValue headers wrapper, P (.returning value statusValue headers wrapper)) :
    Eff.Returns ((DslStep.returnStep s).GivesBy P) (executeReturn h ctx s) := by
  refine Eff.returns_bind_any fun value => Eff.returns_bind_any fun statusValue => ?_
  refine Eff.returns_bind_any fun source => Eff.returns_bind_any fun headers => ?_
  exact Eff.returns_pure (.inl ⟨rfl,kept value statusValue headers s.wrapper⟩)

theorem executeSwitch_returns : Eff.Returns ((DslStep.switch s).GivesBy P) (executeSwitch h ctx s) := by
  have targets : Eff.Returns (fun found : Option String => ∀ target, found = some target →
      target ∈ s.switch.map (·.next)) (Eff.firstM (fun condition => do
        let value ← evaluate h ctx (.string condition.condition)
        pure (if isTruthy value then some condition.next else none)) s.switch) := by
    refine Eff.returns_firstM fun condition member => Eff.returns_bind_any fun value => ?_
    refine Eff.returns_pure ?_
    intro target eq
    split at eq
    · cases eq
      exact List.mem_map_of_mem member
    · cases eq
  refine Eff.returns_bind targets fun found listed => Eff.returns_pure ?_
  cases found with
  | none => exact .inr (.inl rfl)
  | some target => exact .inr (.inr ⟨target,listed target rfl,rfl⟩)

theorem executeHttp_returns : Eff.Returns ((DslStep.http s).GivesBy P) (executeHttp h engine ctx s) := by
  unfold executeHttp executeHttpWith
  split
  · exact Eff.returns_throw _
  · refine Eff.returns_bind_any fun args => Eff.returns_bind_any fun sent => ?_
    refine Eff.returns_bind_any fun response => Eff.returns_bind_any fun _ => ?_
    cases routed : s.error with
    | none =>
      split
      · exact returns_next (.http s)
      · split
        · exact returns_next (.http s)
        · exact Eff.returns_bind_any fun _ => Eff.returns_throw _
    | some target =>
      have elsewhere : (DslStep.http s).GivesBy P { nextStep := some target } :=
        .inr (.inr ⟨target,by simp [DslStep.redirects,routed],rfl⟩)
      split
      · exact Eff.returns_pure elsewhere
      · split
        · exact returns_next (.http s)
        · exact Eff.returns_pure elsewhere

theorem executeHttpMock_returns : Eff.Returns ((DslStep.httpMock s).GivesBy P) (executeHttpMock h ctx s) := by
  apply Eff.returns_bind_any
  intro body
  split
  · exact returns_next (.httpMock s)
  · exact Eff.returns_bind_any fun _ => Eff.returns_bind_any fun _ => returns_next (.httpMock s)

theorem executeTemplate_returns :
    Eff.Returns ((DslStep.template s).GivesBy P) (executeTemplate h engine ctx s) := by
  apply Eff.returns_bind_any
  intro loaded
  split
  · exact Eff.returns_throw _
  · dsimp only
    split
    · exact Eff.returns_throw _
    · refine Eff.returns_bind_any fun body => Eff.returns_bind_any fun query => ?_
      refine Eff.returns_bind_any fun headers => Eff.returns_bind_any fun chain => ?_
      exact Eff.returns_bind_any fun result => Eff.returns_bind_any fun _ => returns_next (.template s)

/-- A body passes on the result of the sub-step that returned. -/
theorem runBody_returns (step : ∀ sub, Eff.Returns (sub.GivesBy P) (engine.step sub ctx)) :
    Eff.Returns (fun early => ∀ r, early = some r → r.shouldReturn = true ∧ P r)
      (runBody engine ctx steps) := by
  refine Eff.returns_firstM fun sub _ => ?_
  refine Eff.returns_bind (step sub) fun result gives => Eff.returns_pure ?_
  intro r eq
  split at eq
  · rename_i returned
    cases eq
    exact ⟨returned,gives.holds returned⟩
  · cases eq

theorem iterateItems_returns (step : ∀ sub, Eff.Returns (sub.GivesBy P) (engine.step sub ctx)) :
    Eff.Returns (fun ended => ∀ r, ended = .inl r → r.shouldReturn = true ∧ P r)
      (iterateItems h engine ctx b items) := by
  induction items with
  | nil => exact Eff.returns_pure (by simp)
  | cons item rest ih =>
    apply Eff.returns_bind_any
    intro _
    refine Eff.returns_bind (runBody_returns step) fun early returned => ?_
    cases early with
    | some result => exact Eff.returns_pure (by simpa using returned)
    | none =>
      refine Eff.returns_bind_any fun value => Eff.returns_bind ih fun later returned => ?_
      cases later with
      | inl early => exact Eff.returns_pure (by simpa using returned)
      | inr later => exact Eff.returns_pure (by simp)

theorem executeIterate_returns (step : ∀ sub, Eff.Returns (sub.GivesBy P) (engine.step sub ctx)) :
    Eff.Returns ((DslStep.iterate s).GivesBy P) (executeIterate h engine ctx s) := by
  apply Eff.returns_bind_any
  intro list
  split
  · dsimp only
    split
    · exact Eff.returns_throw _
    · refine Eff.returns_bind (iterateItems_returns step) fun ended returned => ?_
      cases ended with
      | inl early => exact Eff.returns_pure (.inl (returned early rfl))
      | inr collected => exact Eff.returns_bind_any fun _ => returns_next (.iterate s)
  · exact Eff.returns_throw _

theorem executeParallelHttp_returns :
    Eff.Returns ((DslStep.parallelHttp s).GivesBy P) (executeParallelHttp h ctx s) := by
  refine Eff.returns_bind_any fun evaluated => Eff.returns_bind_any fun peers => ?_
  split
  · exact Eff.returns_bind_any fun _ => returns_next (.parallelHttp s)
  · split
    · exact Eff.returns_throw _
    · refine Eff.returns_bind_any fun resolved => Eff.returns_bind_any fun outcomes => ?_
      refine Eff.returns_bind_any fun order => Eff.returns_bind_any fun collected => ?_
      exact Eff.returns_bind_any fun _ => returns_next (.parallelHttp s)

theorem executeDetach_returns : Eff.Returns ((DslStep.detach s).GivesBy P) (executeDetach h engine ctx s) := by
  unfold executeDetach
  dsimp only
  split
  · exact Eff.returns_throw _
  · apply Eff.returns_bind_any
    intro outcome
    split
    · exact Eff.returns_throw _
    · exact Eff.returns_throw _
    · exact Eff.returns_bind_any fun now => Eff.returns_bind_any fun _ => returns_next (.detach s)

theorem executeWsSend_returns : Eff.Returns ((DslStep.wsSend s).GivesBy P) (executeWsSend h ctx s) := by
  apply Eff.returns_bind_any
  intro payload
  split
  · exact Eff.returns_bind_any fun _ => Eff.returns_bind_any fun _ => returns_next (.wsSend s)
  · exact Eff.returns_bind_any fun _ => returns_next (.wsSend s)
  · exact Eff.returns_bind_any fun _ => Eff.returns_bind_any fun _ => returns_next (.wsSend s)

theorem executeWsTag_returns : Eff.Returns ((DslStep.wsTag s).GivesBy P) (executeWsTag h ctx s) := by
  unfold executeWsTag
  split
  · exact Eff.returns_throw _
  · refine Eff.returns_bind_any fun tags => Eff.returns_bind_any fun _ => ?_
    exact Eff.returns_bind_any fun answer => Eff.returns_bind_any fun _ => returns_next (.wsTag s)

theorem executeSingleFlight_returns
    (step : ∀ sub, Eff.Returns (sub.GivesBy P) (engine.step sub ctx)) :
    Eff.Returns ((DslStep.singleFlight s).GivesBy P) (executeSingleFlight h engine ctx s) := by
  refine Eff.returns_bind_any fun key => Eff.returns_bind_any fun role => ?_
  split
  · refine Eff.returns_bind (Eff.returns_attempt (runBody_returns step)) fun ended returned => ?_
    refine Eff.returns_bind_any fun now => Eff.returns_bind_any fun _ => ?_
    refine Eff.returns_bind (returns_ofExcept returned) fun early passed => ?_
    cases early with
    | some result => exact Eff.returns_pure (.inl (passed result rfl))
    | none => exact returns_next (.singleFlight s)
  · exact Eff.returns_bind_any fun _ => returns_next (.singleFlight s)
  · exact Eff.returns_throw _
  · exact Eff.returns_throw _
  · exact Eff.returns_throw _

theorem executeSingleStep_returns
    (kept : ∀ value statusValue headers wrapper, P (.returning value statusValue headers wrapper))
    (step : ∀ sub, Eff.Returns (sub.GivesBy P) (engine.step sub ctx)) (sub : DslStep) :
    Eff.Returns (sub.GivesBy P) (executeSingleStep h engine sub ctx) := by
  apply Eff.returns_bind_any
  intro _
  cases sub with
  | assign s => exact Eff.returns_bind_any fun _ => returns_next (.assign s)
  | returnStep s => exact executeReturn_returns kept
  | http s => exact executeHttp_returns
  | httpMock s => exact executeHttpMock_returns
  | switch s => exact executeSwitch_returns
  | log s => exact Eff.returns_bind_any fun _ => returns_next (.log s)
  | template s => exact executeTemplate_returns
  | state s => exact Eff.returns_bind_any fun _ => returns_next (.state s)
  | iterate s => exact executeIterate_returns step
  | parallelHttp s => exact executeParallelHttp_returns
  | detach s => exact executeDetach_returns
  | wsSend s => exact executeWsSend_returns
  | wsTag s => exact executeWsTag_returns
  | singleFlight s => exact executeSingleFlight_returns step
  | declaration s => exact returns_next (.declaration s)

end Executors

/-- What every `return` satisfies is satisfied wherever the result is passed on. -/
theorem engine_step_givesBy {P : StepResult → Prop}
    (kept : ∀ value statusValue headers wrapper, P (.returning value statusValue headers wrapper))
    (h : Host) (fuel : Nat) (step : DslStep) (ctx : Ctx) :
    Eff.Returns (step.GivesBy P) ((engine h fuel).step step ctx) := by
  induction fuel generalizing step ctx with
  | zero => exact Eff.returns_throw _
  | succ fuel ih => exact executeSingleStep_returns kept (fun sub => ih sub ctx) step

theorem engine_step_gives (h : Host) (fuel : Nat) (step : DslStep) (ctx : Ctx) :
    Eff.Returns step.Gives ((engine h fuel).step step ctx) :=
  engine_step_givesBy (P := StepResult.Consistent) (fun _ _ _ _ => rfl) h fuel step ctx

/-- The end of a run carries a consistent result. -/
def RunEnd.Consistent (ended : RunEnd) : Prop := ∀ r, ended = .returned r → r.Consistent

/-- The end of a run, with what a `return` satisfies left open. -/
def RunEnd.ReturnsBy (P : StepResult → Prop) (ended : RunEnd) : Prop := ∀ r, ended = .returned r → P r

section Loop
variable {h : Host} {execute : DslStep → Ctx → M StepResult} {dsl : Dsl} {ctx : Ctx} {P : StepResult → Prop}

theorem followNext_returns : Eff.Returns (fun move => ∀ ended, move = .stop ended → ended.ReturnsBy P)
    (followNext dsl name index next) := by
  unfold followNext
  split
  · exact Eff.returns_pure (by simp)
  · split
    · exact Eff.returns_pure (by simp [RunEnd.ReturnsBy])
    · split
      · exact Eff.returns_pure (by simp)
      · exact Eff.returns_throw _

theorem takeStep_returns (each : Eff.Returns (fun r => r.shouldReturn = true → P r) (execute step ctx)) :
    Eff.Returns (fun move => ∀ ended, move = .stop ended → ended.ReturnsBy P)
      (takeStep execute dsl ctx name step index) := by
  have performed : Eff.Returns (fun r => r.shouldReturn = true → P r) (perform execute ctx name step) := by
    unfold perform
    split
    · exact Eff.returns_pure nofun
    · exact Eff.returns_mapError each
  refine Eff.returns_bind_any fun _ => Eff.returns_bind performed fun result holds => ?_
  split
  · rename_i returned
    exact Eff.returns_pure (by simpa [RunEnd.ReturnsBy] using holds returned)
  · exact Eff.returns_bind_any fun _ => followNext_returns

theorem runLoop_returns (each : ∀ step, Eff.Returns (fun r => r.shouldReturn = true → P r) (execute step ctx)) :
    Eff.Returns (RunEnd.ReturnsBy P) (runLoop h execute dsl ctx budget index recursions) := by
  induction budget generalizing index recursions with
  | zero =>
    refine Eff.returns_pure ?_
    split <;> simp [RunEnd.ReturnsBy]
  | succ budget ih =>
    unfold runLoop
    split
    · exact Eff.returns_pure (by simp [RunEnd.ReturnsBy])
    · split
      · exact Eff.returns_throw _
      · dsimp only
        split
        · exact ih
        · refine Eff.returns_bind (takeStep_returns (each _)) fun move holds => ?_
          cases move with
          | goto next => exact ih
          | stop ended => exact Eff.returns_pure (holds ended rfl)

end Loop

/-- A run of the engine that returns does so with the result of some `return`. -/
theorem runToEnd_returnsBy {P : StepResult → Prop}
    (kept : ∀ value statusValue headers wrapper, P (.returning value statusValue headers wrapper))
    (h : Host) (fuel : Nat) (dsl : Dsl) (ctx : Ctx) :
    Eff.Returns (RunEnd.ReturnsBy P) (runToEnd h (engine h fuel).step dsl ctx) :=
  Eff.returns_bind_any fun _ => runLoop_returns fun step s r t eq returns =>
    (engine_step_givesBy kept h fuel step ctx s r t eq).holds returns

/-- An integer from 400 up to the largest `u16` is the status it gives. -/
theorem statusOf_of_asInt (int : value.asInt? = some n) (low : 400 ≤ n) (high : n < 2 ^ 16) :
    ∃ status, statusOf value = some status ∧ 400 ≤ status := by
  cases value with
  | number number =>
    cases number with
    | posInt u =>
      simp only [Json.asInt?,Option.some.injEq] at int
      refine ⟨u.toUInt16,rfl,?_⟩
      have small : u.toNat < 2 ^ 16 := by omega
      rw [UInt16.le_iff_toNat_le,UInt64.toNat_toUInt16,Nat.mod_eq_of_lt small]
      show 400 ≤ u.toNat
      omega
    | negInt k =>
      simp only [Json.asInt?,Option.some.injEq] at int
      omega
    | float q => simp [Json.asInt?] at int
  | _ => simp [Json.asInt?] at int

/-- A guard run admits only after an end that may admit. -/
theorem admitting_run_end (h : Host) (fuel : Nat) (guard : Dsl) (ctx : Ctx) (s t : St)
    (result : DslExecutionResult) (ran : (engine h (fuel + 1)).run guard ctx s = (.ok result,t))
    (admits : result.status < 400) :
    ∃ ended, runToEnd h (engine h (fuel + 1)).step guard ctx s = (.ok ended,t) ∧
      ended.result = result ∧ ended.MayAdmit := by
  obtain ⟨ended,u,first,rest⟩ := Eff.bind_ok_inv ran
  cases rest
  refine ⟨ended,first,rfl,?_⟩
  have consistent : ended.Consistent :=
    runToEnd_returnsBy (P := StepResult.Consistent) (fun _ _ _ _ => rfl) h (fuel + 1) guard ctx s ended t first
  cases ended with
  | endOfSteps => trivial
  | nextEnd => trivial
  | iterationCap => trivial
  | returned r =>
    intro value n given int outside
    obtain ⟨status,gives,above⟩ := statusOf_of_asInt int outside.1 outside.2
    have returned : r.returnStatus = some status := by
      rw [consistent r rfl,given]
      exact gives
    have same : (RunEnd.returned r).result.status = status := by
      simp [RunEnd.result,returned]
    rw [same] at admits
    exact absurd above (UInt16.not_le.mpr admits)

/-- A configuration with a small iteration cap. -/
def cappedHost : Host where
  maxIterations := 4

/-- A guard with one step. -/
def oneStepGuard (step : DslStep) : Dsl where
  steps := (∅ : StringMap DslStep).insert "check" step

theorem admitting_run_end_ok : ∃ ended,
    runToEnd cappedHost (engine cappedHost 1).step
        (oneStepGuard (.returnStep { returnValue := .null, status := some (.ofNat 204) })) {} {} =
      (.ok ended,((engine cappedHost 1).run
        (oneStepGuard (.returnStep { returnValue := .null, status := some (.ofNat 204) })) {} {}).2) ∧
      ended.result = { value := some .null, status := 204 } ∧ ended.MayAdmit :=
  admitting_run_end cappedHost 0 _ {} {} _ { value := some .null, status := 204 } rfl (by decide)

/-- A guard that never leaves its loop and a guard that denies with the text `403` both admit. -/
theorem run_not_failClosed :
    (∃ ended t,
      runToEnd cappedHost (engine cappedHost 1).step
          (oneStepGuard (.assign { assign := ∅, next := some "check" })) {} {} = (.ok ended,t) ∧
        ended.result.status < 400 ∧ ¬ ended.FailClosed) ∧
    ∃ ended t,
      runToEnd cappedHost (engine cappedHost 1).step
          (oneStepGuard (.returnStep { returnValue := .null, status := some (.string "403") })) {} {} =
        (.ok ended,t) ∧ ended.result.status < 400 ∧ ¬ ended.FailClosed := by
  refine ⟨⟨.iterationCap,_,rfl,by decide,id⟩,⟨_,_,rfl,by decide,?_⟩⟩
  intro failClosed
  obtain ⟨n,int,_⟩ := failClosed (.string "403") rfl
  cases int

end Ruuter
