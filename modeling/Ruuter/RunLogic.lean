import Ruuter.LoopCaps
import Ruuter.Lib.Hoare

/-! Pre- and postconditions of DSL runs (`StepEngine::run`), by an outline in the manner of a flowchart
proof: an assertion about each round of the run loop, which every way on from the round keeps. -/
namespace Ruuter

/-- What a step must establish: the assertion at the round it goes to, or the postcondition if the run
ends with it. -/
def Move.leaves (next : Nat → St → Prop) (Q : RunEnd → St → Prop) : Move → St → Prop
  | .goto index, t => next index t
  | .stop ended, t => Q ended t

section Outline
variable (h : Host) (execute : DslStep → Ctx → M StepResult) (dsl : Dsl) (ctx : Ctx)

/-- An assertion about rounds that carries a precondition of the run through to its postcondition. -/
structure Outline (P : St → Prop) (A : Round → Prop) (Q : RunEnd → St → Prop)
    (E : RuuterError → St → Prop) : Prop where
  start : ∀ s, P s → A (firstRound h dsl s)
  step : ∀ a name step, A a → a.Dispatches h dsl name step →
    Eff.Triple (· = a.state) (takeStep execute dsl ctx name step a.index)
      (Move.leaves (fun index t => A (a.after name index t)) Q) E
  pass : ∀ a, A a → a.passed h dsl = true → A { a with budget := a.budget - 1, index := a.index + 1 }
  spent : ∀ a, A a → a.budget = 0 → a.index < dsl.stepNames.length → Q .iterationCap a.state
  ends : ∀ a, A a → dsl.stepNames.length ≤ a.index → Q .endOfSteps a.state

variable {h : Host} {execute : DslStep → Ctx → M StepResult} {dsl : Dsl} {ctx : Ctx} {P : St → Prop}
  {A : Round → Prop} {Q : RunEnd → St → Prop} {E : RuuterError → St → Prop}
  {a b : Round}

/-- The ways a round may go on. -/
theorem round_cases (h : Host) (dsl : Dsl) (a : Round) :
    (a.budget = 0 ∧ a.index < dsl.stepNames.length) ∨ dsl.stepNames.length ≤ a.index ∨ a.passed h dsl = true ∨
      ∃ name step, a.Dispatches h dsl name step := by
  by_cases inside : a.index < dsl.stepNames.length
  · by_cases budget : a.budget = 0
    · exact .inl ⟨budget,inside⟩
    · have named := List.getElem?_eq_getElem inside
      obtain ⟨step,held,found⟩ := a.step?_isSome named
      by_cases below : a.count dsl.stepNames[a.index] < (perStepCap step h.maxIterations).toNat
      · exact .inr (.inr (.inr ⟨_,step,Nat.pos_of_ne_zero budget,named,held,below⟩))
      · refine .inr (.inr (.inl ?_))
        have room := Nat.pos_of_ne_zero budget
        simp only [Round.passed,found,Option.any_some,Bool.and_eq_true,decide_eq_true_eq]
        exact ⟨room,Nat.le_of_not_lt below⟩
  · exact .inr (.inl (Nat.le_of_not_lt inside))

theorem run_spent (budget : a.budget = 0) (inside : a.index < dsl.stepNames.length) :
    a.run h execute dsl ctx = (.ok .iterationCap,a.state) := by
  obtain ⟨budget',index,recursions,state⟩ := a
  subst budget
  simp only [Round.run,runLoop,if_pos inside]
  rfl

theorem run_goto (dispatched : a.Dispatches h dsl name step)
    (taken : takeStep execute dsl ctx name step a.index a.state = (.ok (.goto index),t)) :
    a.run h execute dsl ctx = (a.after name index t).run h execute dsl ctx :=
  (Turn.take dispatched taken).run_eq

theorem run_stop (dispatched : a.Dispatches h dsl name step)
    (taken : takeStep execute dsl ctx name step a.index a.state = (.ok (.stop ended),t)) :
    a.run h execute dsl ctx = (.ok ended,t) :=
  dispatched.run_eq.trans (Eff.bind_eq_ok taken)

theorem run_fail (dispatched : a.Dispatches h dsl name step)
    (taken : takeStep execute dsl ctx name step a.index a.state = (.error e,t)) :
    a.run h execute dsl ctx = (.error e,t) :=
  dispatched.run_eq.trans (Eff.bind_eq_error taken)

/-- The run from a round on ends as the conditions say. -/
structure Round.EndsIn (a : Round) (h : Host) (execute : DslStep → Ctx → M StepResult) (dsl : Dsl) (ctx : Ctx)
    (Q : RunEnd → St → Prop) (E : RuuterError → St → Prop) : Prop where
  ok : ∀ ended t, a.run h execute dsl ctx = (.ok ended,t) → Q ended t
  error : ∀ e t, a.run h execute dsl ctx = (.error e,t) → E e t

theorem endsIn_ok (run : a.run h execute dsl ctx = (.ok ended,t)) (holds : Q ended t) :
    a.EndsIn h execute dsl ctx Q E := by
  constructor
  · intro ended t same
    cases run.symm.trans same
    exact holds
  · intro e t same
    cases run.symm.trans same

theorem endsIn_error (run : a.run h execute dsl ctx = (.error e,t)) (holds : E e t) :
    a.EndsIn h execute dsl ctx Q E := by
  constructor
  · intro ended t same
    cases run.symm.trans same
  · intro e t same
    cases run.symm.trans same
    exact holds

theorem Round.EndsIn.of_eq (ends : b.EndsIn h execute dsl ctx Q E)
    (same : a.run h execute dsl ctx = b.run h execute dsl ctx) : a.EndsIn h execute dsl ctx Q E :=
  ⟨fun ended t run => ends.ok ended t (same.symm.trans run),fun e t run => ends.error e t (same.symm.trans run)⟩

/-- From a round that the outline covers the run ends as the outline says, by induction on the budget. -/
theorem Outline.endsIn (outline : Outline h execute dsl ctx P A Q E) (a : Round) (holds : A a) :
    a.EndsIn h execute dsl ctx Q E := by
  induction budget : a.budget generalizing a with
  | zero =>
    by_cases inside : a.index < dsl.stepNames.length
    · exact endsIn_ok (run_spent budget inside) (outline.spent a holds budget inside)
    · have past := Nat.le_of_not_lt inside
      exact endsIn_ok (run_past past) (outline.ends a holds past)
  | succ budget' ih =>
    rcases round_cases h dsl a with ⟨spent,_⟩ | past | passed | ⟨name,step,dispatched⟩
    · rw [budget] at spent
      cases spent
    · exact endsIn_ok (run_past past) (outline.ends a holds past)
    · refine (ih _ (outline.pass a holds passed) ?_).of_eq (turn_of_passed passed).run_eq
      exact Nat.sub_eq_of_eq_add budget
    · obtain ⟨ok,error⟩ := outline.step a name step holds dispatched a.state rfl
      cases taken : takeStep execute dsl ctx name step a.index a.state with
      | mk outcome t =>
        cases outcome with
        | error e => exact endsIn_error (run_fail dispatched taken) (error e t taken)
        | ok move =>
          cases move with
          | stop ended => exact endsIn_ok (run_stop dispatched taken) (ok _ t taken)
          | goto index =>
            refine (ih _ (ok _ t taken) ?_).of_eq (run_goto dispatched taken)
            exact Nat.sub_eq_of_eq_add budget

/-- The assertion holds at every round that a run comes to. -/
theorem Outline.roundOf (outline : Outline h execute dsl ctx P A Q E) (given : P s)
    (reached : RoundOf h execute dsl ctx s a) : A a := by
  induction reached with
  | refl => exact outline.start s given
  | tail _ turn ih =>
    obtain ⟨name,step,index,t,dispatched,taken,rfl⟩ | ⟨passed,_,_,rfl⟩ := turn.inv
    · exact (outline.step _ name step ih dispatched _ rfl).1 _ t taken
    · exact outline.pass _ ih passed

/-- The assertion that the run from here on ends as it should is an outline. -/
theorem outline_of_triple (triple : Eff.Triple P (runToEnd h execute dsl ctx) Q E) :
    Outline h execute dsl ctx P (fun a => a.EndsIn h execute dsl ctx Q E) Q E := by
  constructor
  · intro s given
    obtain ⟨ok,error⟩ := triple s given
    have here : runToEnd h execute dsl ctx s = (firstRound h dsl s).run h execute dsl ctx := RoundOf.run_eq .refl
    exact ⟨fun ended t run => ok ended t (here.trans run),fun e t run => error e t (here.trans run)⟩
  · rintro a name step ends dispatched _ rfl
    constructor
    · intro move t taken
      cases move with
      | goto index => exact ends.of_eq (run_goto dispatched taken).symm
      | stop ended => exact ends.ok ended t (run_stop dispatched taken)
    · intro e t taken
      exact ends.error e t (run_fail dispatched taken)
  · intro a ends passed
    exact ends.of_eq (turn_of_passed passed).run_eq.symm
  · intro a ends budget inside
    exact ends.ok _ _ (run_spent budget inside)
  · intro a ends past
    exact ends.ok _ _ (run_past past)

/-- A run of a DSL that has an outline satisfies its precondition and postconditions. -/
theorem Outline.triple (outline : Outline h execute dsl ctx P A Q E) :
    Eff.Triple P (runToEnd h execute dsl ctx) Q E := by
  intro s given
  have here : runToEnd h execute dsl ctx s = (firstRound h dsl s).run h execute dsl ctx := RoundOf.run_eq .refl
  have ends := outline.endsIn _ (outline.start s given)
  exact ⟨fun ended t run => ends.ok ended t (here.symm.trans run),
    fun e t run => ends.error e t (here.symm.trans run)⟩

/-- A run satisfies a precondition and a postcondition exactly if there is an outline for them. -/
theorem triple_iff_outline : Eff.Triple P (runToEnd h execute dsl ctx) Q E ↔
    ∃ A, Outline h execute dsl ctx P A Q E := by
  constructor
  · intro triple
    exact ⟨_,outline_of_triple triple⟩
  · rintro ⟨A,outline⟩
    exact outline.triple

end Outline

end Ruuter
