import Mathlib.Data.List.Chain
import Ruuter.Transitions

/-! The caps of the run loop (`StepEngine::run`) for any outcome of its steps: a run ends within
its budget, no step exceeds its own cap, and up to the first cap that bites the run follows the
`next:` of its steps or their order in the source. -/
namespace Ruuter

section Caps
variable (h : Host) (execute : DslStep → Ctx → M StepResult) (dsl : Dsl) (ctx : Ctx)

/-- From a step and the state before it to the step after it, without any cap: a step goes to its
`next:`, and without one to the step behind it. -/
inductive Leads : Nat × St → Nat × St → Prop
  | next (named : dsl.stepNames[index]? = some name) (held : dsl.getStep name = some step)
      (performed : perform execute ctx name step (sleepFor step.base.sleep s).2 = (.ok result,t))
      (stays : result.shouldReturn = false) (given : result.nextStep = some target)
      (other : target ≠ "end") (there : dsl.stepNames.idxOf? target = some place) :
      Leads (index,s) (place,(triggerReload step.base t).2)
  | fallThrough (named : dsl.stepNames[index]? = some name) (held : dsl.getStep name = some step)
      (performed : perform execute ctx name step (sleepFor step.base.sleep s).2 = (.ok result,t))
      (stays : result.shouldReturn = false) (given : result.nextStep = none) :
      Leads (index,s) (index + 1,(triggerReload step.base t).2)

namespace Round

def place (a : Round) : Nat × St := (a.index,a.state)

/-- The step at the index of a round, with its name. -/
def step? (a : Round) : Option (String × DslStep) :=
  dsl.stepNames[a.index]?.bind fun name => (dsl.getStep name).map (name,·)

/-- The round enters the body of the loop. -/
def inLoop (a : Round) : Bool := 0 < a.budget && a.index < dsl.stepNames.length

/-- The name of the step that the round dispatches. -/
def dispatched (a : Round) : Option String :=
  (a.step? dsl).bind fun named =>
    if 0 < a.budget ∧ a.count named.1 < (perStepCap named.2 h.maxIterations).toNat then some named.1 else none

/-- The step of the round has no recursion left. -/
def passed (a : Round) : Bool :=
  0 < a.budget && (a.step? dsl).any fun named => (perStepCap named.2 h.maxIterations).toNat ≤ a.count named.1

/-- A cap keeps the step of the round from being dispatched. -/
def bitten (a : Round) : Bool :=
  (a.step? dsl).any fun named =>
    a.budget == 0 || (perStepCap named.2 h.maxIterations).toNat ≤ a.count named.1

end Round

/-- The rounds from one on, to a last one that no round follows. -/
inductive Trail : Round → List Round → Prop
  | last (stuck : ∀ b, ¬ Turn h execute dsl ctx a b) : Trail a [a]
  | turn (turn : Turn h execute dsl ctx a b) (rest : Trail b rounds) : Trail a (a :: rounds)

/-- What the caps promise about the rounds of a run. -/
structure WithinCaps (s : St) (rounds : List Round) : Prop where
  ends : ∃ last, rounds.getLast? = some last ∧
    runToEnd h execute dsl ctx s = last.run h execute dsl ctx
  budget : rounds.countP (Round.inLoop dsl) ≤ h.maxIterations.toNat
  caps : ∀ name step, dsl.getStep name = some step →
    (rounds.filterMap (Round.dispatched h dsl)).count name ≤
      min (step.base.maxRecursions.getD h.maxIterations).toNat h.maxIterations.toNat
  passes : ∀ before a after, rounds = before ++ a :: after → a.passed h dsl = true →
    a.dispatched h dsl = none ∧ after.head? = some { a with budget := a.budget - 1, index := a.index + 1 }
  starts : rounds.head?.map Round.place = some (0,(emit (.entered dsl) s).2)
  path : ∀ free rest, rounds = free ++ rest → (∀ a ∈ free, a.bitten h dsl = false) →
    (free.map Round.place).IsChain (Leads execute dsl ctx) ∧
    free.filterMap (Round.dispatched h dsl) = free.filterMap (dsl.stepNames[·.index]?) ∧
    (rest = [] → ∀ last, free.getLast? = some last → ∀ p, ¬ Leads execute dsl ctx last.place p)

end Caps

section Steps
variable {h : Host} {execute : DslStep → Ctx → M StepResult} {dsl : Dsl} {ctx : Ctx} {a b : Round}

/-- A step that is taken goes where its `next:` or the source order leads. -/
theorem leads_of_taken (named : dsl.stepNames[index]? = some name) (held : dsl.getStep name = some step)
    (taken : takeStep execute dsl ctx name step index s = (.ok (.goto place),t)) :
    Leads execute dsl ctx (index,s) (place,t) := by
  cases performed : perform execute ctx name step (sleepFor step.base.sleep s).2 with
  | mk outcome u =>
    cases outcome with
    | error e =>
      rw [takeStep_error performed] at taken
      cases taken
    | ok result =>
      cases stays : result.shouldReturn with
      | true =>
        have returned : takeStep execute dsl ctx name step index s = (.ok (.stop (.returned result)),u) := by
          refine (Eff.bind_eq_ok (sleepFor_eq _ _)).trans ((Eff.bind_eq_ok performed).trans ?_)
          simp only [stays,if_true]
          rfl
        rw [returned] at taken
        cases taken
      | false =>
        rw [takeStep_stays performed stays] at taken
        cases given : result.nextStep with
        | none =>
          rw [given] at taken
          cases taken
          exact .fallThrough named held performed stays given
        | some target =>
          rw [given] at taken
          unfold followNext at taken
          by_cases last : target = "end"
          · simp only [if_pos last] at taken
            cases taken
          · simp only [if_neg last] at taken
            cases there : dsl.stepNames.idxOf? target with
            | none =>
              simp only [there] at taken
              cases taken
            | some at' =>
              simp only [there] at taken
              cases taken
              exact .next named held performed stays given last there

theorem taken_of_leads (leads : Leads execute dsl ctx (index,s) p) (named : dsl.stepNames[index]? = some name)
    (held : dsl.getStep name = some step) :
    takeStep execute dsl ctx name step index s = (.ok (.goto p.1),p.2) := by
  cases leads with
  | next there known performed stays given other found =>
    cases named.symm.trans there
    cases held.symm.trans known
    rw [takeStep_stays performed stays,given]
    simp only [followNext,if_neg other,found]
    rfl
  | fallThrough there known performed stays given =>
    cases named.symm.trans there
    cases held.symm.trans known
    rw [takeStep_stays performed stays,given]
    rfl

theorem Round.step?_eq (named : dsl.stepNames[a.index]? = some name) (held : dsl.getStep name = some step) :
    a.step? dsl = some (name,step) := by
  unfold Round.step?
  rw [named,Option.bind_some,held]
  rfl

/-- Where there is a name there is a step. -/
theorem Round.step?_isSome (named : dsl.stepNames[a.index]? = some name) :
    ∃ step, dsl.getStep name = some step ∧ a.step? dsl = some (name,step) := by
  have inside : name ∈ dsl.steps := List.mem_of_getElem? named
  obtain ⟨step,held⟩ := Option.isSome_iff_exists.mp (AList.lookup_isSome.mpr inside)
  exact ⟨step,held,a.step?_eq named held⟩

theorem Round.step?_none (past : dsl.stepNames[a.index]? = none) : a.step? dsl = none := by
  unfold Round.step?
  rw [past]
  rfl

theorem Round.Dispatches.dispatched (given : a.Dispatches h dsl name step) : a.dispatched h dsl = some name := by
  unfold Round.dispatched
  rw [a.step?_eq given.named given.held,Option.bind_some,if_pos ⟨given.budget,given.below⟩]

theorem Round.Dispatches.not_passed (given : a.Dispatches h dsl name step) : a.passed h dsl = false := by
  unfold Round.passed
  rw [a.step?_eq given.named given.held]
  have below := given.below
  simp only [Option.any_some,Bool.and_eq_false_iff,decide_eq_false_iff_not,Nat.not_le]
  exact .inr below

/-- What a round that turns into another one does. -/
theorem Turn.inv (turn : Turn h execute dsl ctx a b) :
    (∃ name step index t, a.Dispatches h dsl name step ∧
      takeStep execute dsl ctx name step a.index a.state = (.ok (.goto index),t) ∧ b = a.after name index t) ∨
    (a.passed h dsl = true ∧ a.dispatched h dsl = none ∧ a.bitten h dsl = true ∧
      b = { a with budget := a.budget - 1, index := a.index + 1 }) := by
  cases turn with
  | take dispatched taken => exact .inl ⟨_,_,_,_,dispatched,taken,rfl⟩
  | pass budget named held capped =>
    right
    have step := a.step?_eq named held
    refine ⟨?_,?_,?_,rfl⟩
    · unfold Round.passed
      rw [step]
      simp [budget,capped]
    · unfold Round.dispatched
      rw [step,Option.bind_some,if_neg]
      exact fun both => absurd both.2 (Nat.not_lt.mpr capped)
    · unfold Round.bitten
      rw [step]
      simp [capped]

theorem Turn.budget (turn : Turn h execute dsl ctx a b) : b.budget + 1 = a.budget ∧ a.inLoop dsl = true := by
  have spent {c : Round} (room : 0 < a.budget) (left : c.budget = a.budget - 1) : c.budget + 1 = a.budget := by
    omega
  have within {name : String} (named : dsl.stepNames[a.index]? = some name) : a.index < dsl.stepNames.length :=
    (List.getElem?_eq_some_iff.mp named).1
  cases turn with
  | take dispatched taken =>
    exact ⟨spent dispatched.budget rfl,by simp [Round.inLoop,dispatched.budget,within dispatched.named]⟩
  | pass budget named held capped => exact ⟨spent budget rfl,by simp [Round.inLoop,budget,within named]⟩

/-- A step at its cap is passed over. -/
theorem turn_of_passed (passed : a.passed h dsl = true) :
    Turn h execute dsl ctx a { a with budget := a.budget - 1, index := a.index + 1 } := by
  unfold Round.passed at passed
  cases named : dsl.stepNames[a.index]? with
  | none =>
    rw [a.step?_none named] at passed
    simp at passed
  | some name =>
    obtain ⟨step,held,found⟩ := a.step?_isSome named
    rw [found] at passed
    simp only [Option.any_some,Bool.and_eq_true,decide_eq_true_eq] at passed
    exact .pass passed.1 named held passed.2

theorem passed_turn_eq (passed : a.passed h dsl = true) (turn : Turn h execute dsl ctx a b) :
    a.dispatched h dsl = none ∧ b = { a with budget := a.budget - 1, index := a.index + 1 } := by
  obtain ⟨name,step,index,t,dispatched,_⟩ | ⟨_,none,_,rfl⟩ := turn.inv
  · rw [dispatched.not_passed] at passed
    cases passed
  · exact ⟨none,rfl⟩

/-- A round that no cap bites dispatches the step at its index. -/
theorem Round.dispatched_of_free (free : a.bitten h dsl = false) :
    a.dispatched h dsl = dsl.stepNames[a.index]? := by
  unfold Round.bitten at free
  unfold Round.dispatched
  cases named : dsl.stepNames[a.index]? with
  | none =>
    rw [a.step?_none named]
    rfl
  | some name =>
    obtain ⟨step,_,found⟩ := a.step?_isSome named
    rw [found] at free ⊢
    simp only [Option.any_some,Bool.or_eq_false_iff,beq_eq_false_iff_ne,decide_eq_false_iff_not,
      Nat.not_le] at free
    rw [Option.bind_some,if_pos ⟨Nat.pos_of_ne_zero free.1,free.2⟩]

/-- A round that no cap bites goes where its step leads. -/
theorem Turn.leads (turn : Turn h execute dsl ctx a b) (free : a.bitten h dsl = false) :
    Leads execute dsl ctx a.place b.place := by
  obtain ⟨name,step,index,t,dispatched,taken,rfl⟩ | ⟨_,_,bitten,_⟩ := turn.inv
  · exact leads_of_taken dispatched.named dispatched.held taken
  · rw [free] at bitten
    cases bitten

theorem turn_of_leads (leads : Leads execute dsl ctx a.place p) (free : a.bitten h dsl = false) :
    ∃ b, Turn h execute dsl ctx a b := by
  obtain ⟨name,named⟩ : ∃ name, dsl.stepNames[a.index]? = some name := by
    cases leads with
    | next named => exact ⟨_,named⟩
    | fallThrough named => exact ⟨_,named⟩
  obtain ⟨step,held,found⟩ := a.step?_isSome named
  unfold Round.bitten at free
  rw [found] at free
  simp only [Option.any_some,Bool.or_eq_false_iff,beq_eq_false_iff_ne,decide_eq_false_iff_not,
    Nat.not_le] at free
  exact ⟨_,.take ⟨Nat.pos_of_ne_zero free.1,named,held,free.2⟩ (taken_of_leads leads named held)⟩

end Steps

section Trails
variable {h : Host} {execute : DslStep → Ctx → M StepResult} {dsl : Dsl} {ctx : Ctx} {a : Round}

/-- The budget ends every trail. -/
theorem exists_trail (a : Round) : ∃ rounds, Trail h execute dsl ctx a rounds := by
  induction size : a.budget generalizing a with
  | zero =>
    refine ⟨[a],.last ?_⟩
    intro b turn
    have := turn.budget.1
    omega
  | succ budget ih =>
    by_cases stuck : ∃ b, Turn h execute dsl ctx a b
    · obtain ⟨b,turn⟩ := stuck
      have left := turn.budget.1
      obtain ⟨rounds,rest⟩ := ih b (by omega)
      exact ⟨a :: rounds,.turn turn rest⟩
    · exact ⟨[a],.last fun b turn => stuck ⟨b,turn⟩⟩

theorem Trail.head (trail : Trail h execute dsl ctx a rounds) : rounds.head? = some a := by
  cases trail <;> rfl

theorem Trail.ends (trail : Trail h execute dsl ctx a rounds) :
    ∃ last, rounds.getLast? = some last ∧ a.run h execute dsl ctx = last.run h execute dsl ctx := by
  induction trail with
  | last stuck => exact ⟨_,rfl,rfl⟩
  | turn turn rest ih =>
    obtain ⟨last,found,same⟩ := ih
    refine ⟨last,?_,turn.run_eq.trans same⟩
    rw [List.getLast?_cons,found]
    rfl

theorem Trail.budget (trail : Trail h execute dsl ctx a rounds) : rounds.countP (Round.inLoop dsl) ≤ a.budget := by
  induction trail with
  | last stuck =>
    rename_i c
    rw [List.countP_singleton]
    split
    · rename_i inside
      have room : 0 < c.budget ∧ c.index < dsl.stepNames.length := by simpa [Round.inLoop] using inside
      exact room.1
    · exact Nat.zero_le _
  | turn turn rest ih =>
    obtain ⟨spent,inside⟩ := turn.budget
    rw [List.countP_cons_of_pos inside]
    omega

/-- The dispatches of a step that are still to come, with those that are counted already. -/
theorem Trail.caps (trail : Trail h execute dsl ctx a rounds) (held : dsl.getStep name = some step) :
    (rounds.filterMap (Round.dispatched h dsl)).count name + a.count name ≤
      max (a.count name) (perStepCap step h.maxIterations).toNat := by
  have below {c : Round} (here : c.dispatched h dsl = some name) :
      c.count name < (perStepCap step h.maxIterations).toNat := by
    unfold Round.dispatched at here
    obtain ⟨⟨other,held'⟩,found,given⟩ := Option.bind_eq_some_iff.mp here
    split at given
    · rename_i room
      cases given
      obtain ⟨_,_,known⟩ := Option.bind_eq_some_iff.mp found
      obtain ⟨_,known,same⟩ := Option.map_eq_some_iff.mp known
      cases same
      cases held.symm.trans known
      exact room.2
    · cases given
  induction trail with
  | last stuck =>
    rename_i c
    cases here : c.dispatched h dsl with
    | none => simp [here]
    | some other =>
      by_cases same : other = name
      · subst same
        have := below here
        simp only [List.filterMap_cons,here,List.filterMap_nil,List.count_singleton_self]
        omega
      · simp [here,same]
  | turn turn rest ih =>
    obtain ⟨other,step',index,t,dispatched,_,rfl⟩ | ⟨_,none,_,rfl⟩ := turn.inv
    · rw [List.filterMap_cons_some dispatched.dispatched]
      simp only [Round.after,Round.count] at ih ⊢
      by_cases same : other = name
      · subst same
        have room := below dispatched.dispatched
        simp only [Round.count] at room
        rw [AList.lookup_insert] at ih
        rw [List.count_cons_self]
        simp only [Option.getD_some] at ih
        omega
      · rw [AList.lookup_insert_ne (Ne.symm same)] at ih
        rw [List.count_cons_of_ne same]
        exact ih
    · rw [List.filterMap_cons_none none]
      exact ih

theorem Trail.passes (trail : Trail h execute dsl ctx a rounds) (shape : rounds = before ++ c :: after)
    (passed : c.passed h dsl = true) :
    c.dispatched h dsl = none ∧ after.head? = some { c with budget := c.budget - 1, index := c.index + 1 } := by
  induction trail generalizing before with
  | last stuck =>
    cases before with
    | nil =>
      cases shape
      exact absurd (turn_of_passed passed) (stuck _)
    | cons first others =>
      have size := congrArg List.length shape
      simp at size
  | turn turn rest ih =>
    cases before with
    | nil =>
      cases shape
      obtain ⟨none,rfl⟩ := passed_turn_eq passed turn
      exact ⟨none,rest.head⟩
    | cons first others =>
      cases shape
      exact ih rfl

theorem Trail.path (trail : Trail h execute dsl ctx a rounds) (shape : rounds = free ++ rest)
    (unbitten : ∀ c ∈ free, c.bitten h dsl = false) :
    (free.map Round.place).IsChain (Leads execute dsl ctx) ∧
    (rest = [] → ∀ last, free.getLast? = some last → ∀ p, ¬ Leads execute dsl ctx last.place p) := by
  induction trail generalizing free with
  | last stuck =>
    cases free with
    | nil => exact ⟨.nil,fun _ last none => by cases none⟩
    | cons first others =>
      rw [List.cons_append,List.cons.injEq,List.nil_eq_append_iff] at shape
      obtain ⟨rfl,rfl,_⟩ := shape
      refine ⟨.singleton _,?_⟩
      rintro _ last same p leads
      cases same
      obtain ⟨b,turn⟩ := turn_of_leads leads (unbitten _ List.mem_cons_self)
      exact stuck b turn
  | turn turn later ih =>
    cases free with
    | nil => exact ⟨.nil,fun _ last none => by cases none⟩
    | cons first others =>
      rw [List.cons_append,List.cons.injEq] at shape
      obtain ⟨rfl,tail⟩ := shape
      obtain ⟨chain,complete⟩ := ih tail fun c member => unbitten c (List.mem_cons_of_mem _ member)
      have leads := turn.leads (unbitten _ List.mem_cons_self)
      refine ⟨List.isChain_cons.mpr ⟨?_,chain⟩,?_⟩
      · intro p next
        cases others with
        | nil => cases next
        | cons second more =>
          have same := later.head
          rw [tail] at same
          cases same
          cases next
          exact leads
      · intro ended last
        cases others with
        | nil =>
          subst ended
          cases later <;> cases tail
        | cons second more =>
          intro found
          exact complete ended last found

theorem perStepCap_toNat (step : DslStep) (global : UInt32) :
    (perStepCap step global).toNat = min (step.base.maxRecursions.getD global).toNat global.toNat := by
  unfold perStepCap
  cases step.base.maxRecursions with
  | none => exact (Nat.min_self _).symm
  | some own =>
    show (if own ≤ global then own else global).toNat = min own.toNat global.toNat
    split
    · rename_i smaller
      exact (Nat.min_eq_left (UInt32.le_iff_toNat_le.mp smaller)).symm
    · rename_i larger
      have beyond := mt UInt32.le_iff_toNat_le.mpr larger
      exact (Nat.min_eq_right (by omega)).symm

/-- Whatever its steps do, a run ends, stays within its caps, and follows its steps up to the first
cap that bites. -/
theorem run_within_caps (h : Host) (execute : DslStep → Ctx → M StepResult) (dsl : Dsl) (ctx : Ctx) (s : St) :
    (∃ rounds, Trail h execute dsl ctx (firstRound h dsl s) rounds) ∧
    ∀ rounds, Trail h execute dsl ctx (firstRound h dsl s) rounds → WithinCaps h execute dsl ctx s rounds := by
  refine ⟨exists_trail _,?_⟩
  intro rounds trail
  refine ⟨trail.ends,trail.budget,?_,fun _ _ _ => trail.passes,?_,?_⟩
  · intro name step held
    have bound := trail.caps held
    have fresh : (firstRound h dsl s).count name = 0 := rfl
    rw [fresh,Nat.zero_max] at bound
    exact bound.trans (Nat.le_of_eq (perStepCap_toNat step h.maxIterations))
  · rw [trail.head]
    rfl
  · intro free rest shape unbitten
    obtain ⟨chain,complete⟩ := trail.path shape unbitten
    exact ⟨chain,List.filterMap_congr fun c member => c.dispatched_of_free (unbitten c member),complete⟩

end Trails
end Ruuter
