import Ruuter.RunLogic

/-! DSLs whose steps lead forward only: no cap of the engine ever bites, and no step runs twice. -/
namespace Ruuter

/-- Where a step may send the run besides the step behind it. -/
def DslStep.targets (step : DslStep) : List String := step.explicitNext.toList ++ step.redirects

/-- Every target is behind the step that names it. -/
def Dsl.Forward (dsl : Dsl) : Prop :=
  ∀ entry ∈ dsl.steps.entries.zipIdx, ∀ target ∈ entry.1.2.targets,
    target = "end" ∨ ∀ place ∈ dsl.stepNames.idxOf? target, entry.2 < place

instance (dsl : Dsl) : Decidable dsl.Forward := inferInstanceAs (Decidable (∀ _ ∈ _, ∀ _ ∈ _, _ ∨ _))

/-- The caps leave room for one dispatch of each step. -/
structure Dsl.Roomy (dsl : Dsl) (h : Host) : Prop where
  length : dsl.stepNames.length ≤ h.maxIterations.toNat
  caps : ∀ entry ∈ dsl.steps.entries, entry.2.base.maxRecursions ≠ some 0

/-- A round of a forward run: what has been dispatched stands before it, and the budget reaches to the
last step. -/
structure Fresh (h : Host) (dsl : Dsl) (a : Round) : Prop where
  before : ∀ name, 0 < a.count name → ∃ place, dsl.stepNames[place]? = some name ∧ place < a.index
  budget : h.maxIterations.toNat ≤ a.budget + a.index

section Forward
variable {h : Host} {dsl : Dsl} {ctx : Ctx} {a b : Round} {fuel : Nat}

theorem entry_of_named {step : DslStep} {index : Nat}
    (named : dsl.stepNames[index]? = some name) (held : dsl.getStep name = some step) :
    dsl.steps.entries[index]? = some ⟨name,step⟩ := by
  have at_index : (dsl.steps.entries.map Sigma.fst)[index]? = some name := named
  rw [List.getElem?_map,Option.map_eq_some_iff] at at_index
  obtain ⟨⟨name',step'⟩,found,rfl⟩ := at_index
  have held' : dsl.steps.lookup name' = some step' := AList.mem_lookup_iff.mpr (List.mem_of_getElem? found)
  cases held.symm.trans held'
  exact found

theorem Dsl.Forward.at_index (forward : dsl.Forward) {step : DslStep} (named : dsl.stepNames[index]? = some name)
    (held : dsl.getStep name = some step) (member : target ∈ step.targets) :
    target = "end" ∨ ∀ place, dsl.stepNames.idxOf? target = some place → index < place := by
  have listed : (⟨name,step⟩,index) ∈ dsl.steps.entries.zipIdx :=
    List.mem_zipIdx_iff_getElem?.mpr (entry_of_named named held)
  rcases forward _ listed target member with last | later
  · exact .inl last
  · exact .inr fun place there => later place there

/-- A step that goes on to a target goes on to one of its own. -/
theorem performed_targets {step : DslStep}
    (performed : perform (executeSingleStep h (engine h fuel)) ctx name step s = (.ok result,t))
    (stays : result.shouldReturn = false) (given : result.nextStep = some target) : target ∈ step.targets := by
  unfold perform at performed
  split at performed
  · cases performed
    cases given
  · have gives := Eff.returns_mapError (engine_step_gives h (fuel + 1) step ctx) s result t performed
    obtain ⟨returns,_⟩ | rfl | ⟨other,member,rfl⟩ := gives
    · cases stays.symm.trans returns
    · exact List.mem_append_left _ (Option.mem_toList.mpr given)
    · cases given
      exact List.mem_append_right _ member

theorem Dsl.Forward.later (forward : dsl.Forward) {step : DslStep} {name : String} {index place : Nat} {s t : St}
    (named : dsl.stepNames[index]? = some name) (held : dsl.getStep name = some step)
    (taken : takeStep (executeSingleStep h (engine h fuel)) dsl ctx name step index s = (.ok (.goto place),t)) :
    index < place := by
  cases leads_of_taken named held taken with
  | fallThrough => exact Nat.lt_succ_self index
  | next named' held' performed stays given other there =>
    cases named.symm.trans named'
    cases held.symm.trans held'
    rcases forward.at_index named held (performed_targets performed stays given) with last | later
    · exact absurd last other
    · exact later place there

theorem Fresh.count_zero (fresh : Fresh h dsl a) (named : dsl.stepNames[a.index]? = some name) : a.count name = 0 := by
  by_contra counted
  obtain ⟨place,here,before⟩ := fresh.before name (Nat.pos_of_ne_zero counted)
  have distinct : dsl.stepNames.Nodup := dsl.steps.nodupKeys
  obtain ⟨below,_⟩ := List.getElem?_eq_some_iff.mp here
  have same := (List.getElem?_inj below distinct).mp (here.trans named.symm)
  omega

theorem perStepCap_pos {step : DslStep} {global : UInt32} (own : step.base.maxRecursions ≠ some 0)
    (some_left : 0 < global.toNat) : 0 < (perStepCap step global).toNat := by
  rw [perStepCap_toNat]
  refine Nat.lt_min.mpr ⟨?_,some_left⟩
  cases given : step.base.maxRecursions with
  | none => exact some_left
  | some cap =>
    apply Nat.pos_of_ne_zero
    intro zero
    apply own
    have none_left : cap = 0 := UInt32.toNat_inj.mp zero
    rw [given,none_left]

theorem Fresh.dispatches (fresh : Fresh h dsl a) (roomy : dsl.Roomy h) {step : DslStep}
    (named : dsl.stepNames[a.index]? = some name) (held : dsl.getStep name = some step) :
    a.Dispatches h dsl name step := by
  obtain ⟨inside,_⟩ := List.getElem?_eq_some_iff.mp named
  have budget := fresh.budget
  have length := roomy.length
  refine ⟨by omega,named,held,?_⟩
  rw [fresh.count_zero named]
  have listed := List.mem_of_getElem? (entry_of_named named held)
  exact perStepCap_pos (roomy.caps _ listed) (by omega)

/-- A dispatched step moves the run forward and is counted at its own place. -/
theorem Fresh.after (fresh : Fresh h dsl a) {step : DslStep} (dispatched : a.Dispatches h dsl name step)
    (later : a.index < index) (t : St) : Fresh h dsl (a.after name index t) := by
  constructor
  · intro other counted
    by_cases own : other = name
    · subst own
      exact ⟨a.index,dispatched.named,later⟩
    · have before : 0 < a.count other := by
        simpa [Round.count,Round.after,AList.lookup_insert_ne own] using counted
      obtain ⟨place,here,earlier⟩ := fresh.before other before
      exact ⟨place,here,Nat.lt_trans earlier later⟩
  · have budget := fresh.budget
    have room := dispatched.budget
    simp only [Round.after]
    omega

/-- A step ends a run only by a `return` or `next: end`. -/
theorem takeStep_uncapped {step : DslStep} {execute : DslStep → Ctx → M StepResult} :
    Eff.Returns (· ≠ .stop .iterationCap) (takeStep execute dsl ctx name step index) := by
  have followed : ∀ next, Eff.Returns (· ≠ .stop .iterationCap) (followNext dsl name index next) := by
    intro next
    unfold followNext
    split
    · exact Eff.returns_pure nofun
    · split
      · exact Eff.returns_pure nofun
      · split
        · exact Eff.returns_pure nofun
        · exact Eff.returns_throw _
  refine Eff.returns_bind_any fun _ => Eff.returns_bind_any fun result => ?_
  split
  · exact Eff.returns_pure nofun
  · exact Eff.returns_bind_any fun _ => followed result.nextStep

/-- A round of a forward run is not passed over. -/
theorem Fresh.not_passed (fresh : Fresh h dsl a) (roomy : dsl.Roomy h) : a.passed h dsl = false := by
  cases named : dsl.stepNames[a.index]? with
  | none =>
    unfold Round.passed
    rw [a.step?_none named]
    simp
  | some name =>
    obtain ⟨step,held,_⟩ := a.step?_isSome named
    exact (fresh.dispatches roomy named held).not_passed

/-- A forward DSL has an outline: every round is fresh, so that no cap bites. -/
theorem forward_outline (forward : dsl.Forward) (roomy : dsl.Roomy h) (fuel : Nat) (ctx : Ctx) :
    Outline h (executeSingleStep h (engine h fuel)) dsl ctx (fun _ => True) (Fresh h dsl)
      (fun ended _ => ended ≠ .iterationCap) fun _ _ => True := by
  constructor
  · intro s _
    constructor
    · intro name counted
      cases counted
    · exact Nat.le_refl _
  · rintro a name step fresh dispatched _ rfl
    constructor
    · intro move t taken
      cases move with
      | stop ended =>
        rintro rfl
        exact takeStep_uncapped _ _ _ taken rfl
      | goto index => exact fresh.after dispatched (forward.later dispatched.named dispatched.held taken) t
    · intros
      trivial
  · intro a fresh passed
    rw [fresh.not_passed roomy] at passed
    cases passed
  · intro a fresh budget inside
    have enough := fresh.budget
    have length := roomy.length
    omega
  · intro a _ _
    exact RunEnd.noConfusion

end Forward

/-- A DSL whose targets all lie behind the steps that name them, and whose caps leave room for one
dispatch of each step, never ends by a cap, whatever its steps come to: every step that the run comes to
is dispatched, for the first time, and the run goes on behind it. -/
theorem forward_runs_once (h : Host) (fuel : Nat) (dsl : Dsl) (ctx : Ctx) (s : St) (forward : dsl.Forward)
    (roomy : dsl.Roomy h) :
    (runToEnd h (engine h (fuel + 1)).step dsl ctx s).1 ≠ .ok .iterationCap ∧
      ∀ a, RoundOf h (engine h (fuel + 1)).step dsl ctx s a →
        (∀ name step, dsl.stepNames[a.index]? = some name → dsl.getStep name = some step →
          a.Dispatches h dsl name step ∧ a.count name = 0) ∧
        ∀ b, Turn h (engine h (fuel + 1)).step dsl ctx a b → a.index < b.index := by
  have outline := forward_outline forward roomy fuel ctx
  constructor
  · intro capped
    exact (outline.triple s trivial).1 .iterationCap _ (Prod.ext capped rfl) rfl
  · intro a reached
    have fresh := outline.roundOf trivial reached
    constructor
    · intro name step named held
      exact ⟨fresh.dispatches roomy named held,fresh.count_zero named⟩
    · intro b turn
      obtain ⟨name,step,index,t,dispatched,taken,rfl⟩ | ⟨passed,_⟩ := turn.inv
      · exact forward.later dispatched.named dispatched.held taken
      · rw [fresh.not_passed roomy] at passed
        cases passed

/-- A check that leads to one of two answers. -/
def gateDsl : Dsl where
  steps :=
    { entries := [⟨"check",.switch { switch := [{ condition := "$\x7bok\x7d", next := "granted" }], next := some "denied" }⟩,
        ⟨"denied",.returnStep { returnValue := .string "no" }⟩,⟨"granted",.returnStep { returnValue := .string "yes" }⟩]
      nodupKeys := by simp [List.NodupKeys] }

theorem forward_runs_once_gate :
    (runToEnd {} (engine {} 1).step gateDsl {} {}).1 ≠ .ok .iterationCap ∧
      (firstRound {} gateDsl {}).count "check" = 0 := by
  have roomy : gateDsl.Roomy {} := ⟨by decide,by decide⟩
  obtain ⟨uncapped,rounds⟩ := forward_runs_once {} 0 gateDsl {} {} (by decide) roomy
  exact ⟨uncapped,((rounds _ .refl).1 "check" _ rfl rfl).2⟩

end Ruuter
