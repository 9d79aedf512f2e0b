import Mathlib.Logic.Relation
import Ruuter.EffectiveDeclaration
import Ruuter.GuardRun

/-! Where a run goes after a step. The loop of `StepEngine::run` is a relation between rounds,
and the `next:` and `error:` of a document are compared with the round that follows. -/
namespace Ruuter

section Written

open Reader

theorem Layout.optional_string (given : members.lookup name = some (.string text)) :
    (Layout.optional name string).read { members } = some (some text) := by
  have values := (Source.values_eq_singleton { members } name).mpr given
  simp only [Layout.optional,Layout.field,values]
  rfl

/-- The `next:` of a step is the field as it is read, unless the step is a declaration. -/
theorem reader_optionalNext {v : Variant} {nested : Reader DslStep} {step : DslStep} (acting : v ≠ .declaration)
    (given : (v.reader buffered nested).read (.object members) = some step) :
    (Layout.optional "next" string).read { members } = some step.explicitNext := by
  cases v with
  | declaration => exact absurd rfl acting
  | assign | returnStep | http | httpMock | switch | log | template | state | iterate | parallelHttp
  | detach | wsSend | wsTag | singleFlight =>
    obtain ⟨record,layout,rfl⟩ := Option.map_eq_some_iff.mp given
    simp only [Reader.flat,assignStep,returnStep,httpStep,httpMockStep,switchStep,logStep,templateStep,
      stateStep,iterateStep,parallelHttpStep,detachStep,wsSendStep,wsTagStep,singleFlightStep,
      Layout.ap_read,Layout.build,Option.some.injEq,existsAndEq,true_and] at layout
    grind [DslStep.explicitNext]

/-- Every variant but the declaration keeps its `next:`. -/
theorem reader_explicitNext {v : Variant} {nested : Reader DslStep} {step : DslStep}
    (acting : v ≠ .declaration) (given : (v.reader buffered nested).read (.object members) = some step)
    (found : members.lookup "next" = some (.string target)) : step.explicitNext = some target := by
  have read := reader_optionalNext acting given
  rw [Layout.optional_string found] at read
  exact (Option.some.inj read).symm

/-- A `next:` is lost exactly by the steps that are declarations by their keys. -/
theorem parseStep_next {serde : Serde} (parsed : parseStep serde name (.mapping m) = .ok step)
    (written : Yaml.get? m "next" = some (.string target)) :
    step.explicitNext = if declares m then none else some target := by
  obtain ⟨v,json,hint,converted,read,_⟩ := parseStep_iff.mp parsed
  obtain ⟨entries,_,rfl⟩ := Yaml.toJson_mapping converted
  rw [declares_eq name hint]
  by_cases kind : v = .declaration
  · subst kind
    obtain ⟨d,_,rfl⟩ := Option.map_eq_some_iff.mp read
    rfl
  · have field : Yaml.isFieldName "next" = true := by decide
    have found := Yaml.lookup_mapping field converted
    rw [written] at found
    rw [reader_explicitNext kind read found]
    simp [kind]

end Written

/-- The run loop before a round. -/
structure Round where
  budget : Nat
  index : Nat
  recursions : StringMap Nat
  state : St

section Rounds
variable (h : Host) (execute : DslStep → Ctx → M StepResult) (dsl : Dsl) (ctx : Ctx)

namespace Round

/-- The run from a round on. -/
def run (a : Round) : Except RuuterError RunEnd × St :=
  runLoop h execute dsl ctx a.budget a.index a.recursions a.state

def count (a : Round) (name : String) : Nat := (a.recursions.lookup name).getD 0

/-- The round dispatches a step: there is budget for it, and the step is below its cap. -/
structure Dispatches (a : Round) (name : String) (step : DslStep) : Prop where
  budget : 0 < a.budget
  named : dsl.stepNames[a.index]? = some name
  held : dsl.getStep name = some step
  below : a.count name < (perStepCap step h.maxIterations).toNat

/-- The round after a step that was dispatched. -/
def after (a : Round) (name : String) (index : Nat) (state : St) : Round :=
  ⟨a.budget - 1,index,a.recursions.insert name (a.count name + 1),state⟩

/-- The state in which the step of a round is executed. -/
def slept (a : Round) (step : DslStep) : St := (sleepFor step.base.sleep a.state).2

end Round

/-- From one round to the next: a step at its cap is passed over, any other is taken. -/
inductive Turn : Round → Round → Prop
  | pass {a : Round} {name : String} {step : DslStep} (budget : 0 < a.budget)
      (named : dsl.stepNames[a.index]? = some name) (held : dsl.getStep name = some step)
      (capped : (perStepCap step h.maxIterations).toNat ≤ a.count name) :
      Turn a { a with budget := a.budget - 1, index := a.index + 1 }
  | take {a : Round} {name : String} {step : DslStep} {index : Nat} {t : St}
      (dispatched : a.Dispatches h dsl name step)
      (taken : takeStep execute dsl ctx name step a.index a.state = (.ok (.goto index),t)) :
      Turn a (a.after name index t)

/-- The first round of a run. -/
def firstRound (s : St) : Round := ⟨h.maxIterations.toNat,0,∅,(emit (.entered dsl) s).2⟩

/-- The rounds a run comes to. -/
def RoundOf (s : St) (a : Round) : Prop :=
  Relation.ReflTransGen (Turn h execute dsl ctx) (firstRound h dsl s) a

end Rounds

section Runs
variable {h : Host} {execute : DslStep → Ctx → M StepResult} {dsl : Dsl} {ctx : Ctx} {a b : Round}

/-- A round that dispatches a step runs it and goes where the step leads. -/
theorem Round.Dispatches.run_eq (dispatched : a.Dispatches h dsl name step) :
    a.run h execute dsl ctx = (takeStep execute dsl ctx name step a.index >>= fun move =>
      match move with
      | .goto next =>
        runLoop h execute dsl ctx (a.budget - 1) next (a.recursions.insert name (a.count name + 1))
      | .stop ended => pure ended) a.state := by
  obtain ⟨budget,index,recursions,state⟩ := a
  obtain ⟨room,named,held,below⟩ := dispatched
  cases budget with
  | zero => exact absurd room (Nat.lt_irrefl 0)
  | succ budget =>
    have free : ¬ (perStepCap step h.maxIterations).toNat ≤ (recursions.lookup name).getD 0 := by
      simpa [Round.count] using below
    simp only [Round.run,runLoop,named,held,if_neg free]
    rfl

theorem Turn.run_eq (turn : Turn h execute dsl ctx a b) : a.run h execute dsl ctx = b.run h execute dsl ctx := by
  cases turn with
  | pass budget named held capped =>
    obtain ⟨budget',index,recursions,state⟩ := a
    cases budget' with
    | zero => exact absurd budget (Nat.lt_irrefl 0)
    | succ budget' => 
      have closed : (perStepCap _ h.maxIterations).toNat ≤ (recursions.lookup _).getD 0 := capped
      simp only [Round.run,runLoop,named,held,if_pos closed]
      rfl
  | take dispatched taken =>
    rw [dispatched.run_eq,Eff.bind_eq_ok taken]
    rfl

/-- What a run comes to is what it comes to from any of its rounds. -/
theorem RoundOf.run_eq (reached : RoundOf h execute dsl ctx s a) :
    runToEnd h execute dsl ctx s = a.run h execute dsl ctx := by
  induction reached with
  | refl => rfl
  | tail _ turn ih => rw [ih,turn.run_eq]

end Runs

section Next
variable (h : Host) (execute : DslStep → Ctx → M StepResult) (dsl : Dsl) (ctx : Ctx)

/-- The round executes a step that neither fails nor returns and that is not redirected. -/
structure Round.Proceeds (a : Round) (name : String) (step : DslStep) : Prop where
  dispatched : a.Dispatches h dsl name step
  unskipped : step.base.skip.getD false = false
  executed : ∃ result t, execute step ctx (a.slept step) = (.ok result,t) ∧ result.shouldReturn = false ∧
    ∀ target ∈ step.redirects, result.nextStep = some target → step.explicitNext = some target

/-- A round of a run of a loaded document that proceeds from a step written with `next: target`. -/
structure Jumps (parser : DslParser) (content : String) (s : St) (a : Round) (name : String)
    (m : List (Yaml × Yaml)) (target : String) : Prop where
  reached : RoundOf h execute dsl ctx s a
  entry : ∃ yaml, parser.serde.yaml (parser.replaceConstants content) = .ok yaml ∧
    yaml.lookup name = some (.mapping m)
  written : Yaml.get? m "next" = some (.string target)
  proceeds : ∃ step, a.Proceeds h execute dsl ctx name step

/-- The run honours a `next:`: it ends at `end`, fails at a step that does not exist, and
dispatches any other step next. -/
structure Honoured (a : Round) (target : String) : Prop where
  ends : target = "end" → (∃ ended t, a.run h execute dsl ctx = (.ok ended,t) ∧ ended.result = {}) ∧
    ∀ b, Relation.TransGen (Turn h execute dsl ctx) a b → ∀ name step, ¬ b.Dispatches h dsl name step
  fails : target ≠ "end" → target ∉ dsl.stepNames → ∃ e t, a.run h execute dsl ctx = (.error e,t)
  goes : target ≠ "end" → target ∈ dsl.stepNames →
    ∃ b step, Turn h execute dsl ctx a b ∧ b.Dispatches h dsl target step

/-- A step that is a declaration by its keys stands right before its `next:`, or last before
`end`, and the target of a step is within the caps of the run. -/
structure Met (a : Round) (name : String) (m : List (Yaml × Yaml)) (target : String) : Prop where
  inOrder : declares m = true →
    if target = "end" then dsl.stepNames.length = a.index + 1
    else dsl.stepNames[a.index + 1]? = some target
  budget : target ≠ "end" → target ∈ dsl.stepNames → 1 < a.budget
  below : target ≠ "end" → ∀ step, dsl.getStep target = some step →
    (a.after name 0 a.state).count target < (perStepCap step h.maxIterations).toNat

end Next

section Moves
variable {h : Host} {execute : DslStep → Ctx → M StepResult} {dsl : Dsl} {ctx : Ctx} {a b : Round}

theorem triggerReload_eq (base : BaseStepFields) (s : St) :
    triggerReload base s = (.ok (),(triggerReload base s).2) := by
  unfold triggerReload
  split <;> rfl

theorem perform_ok {step : DslStep} (unskipped : step.base.skip.getD false = false)
    (executed : execute step ctx s = (.ok result,t)) :
    perform execute ctx name step s = (.ok result,t) := by
  simp only [perform,unskipped,Bool.false_eq_true,if_false,Eff.mapError,executed]

theorem performed_inv {step : DslStep} (unskipped : ¬ step.base.skip.getD false = true)
    (performed : perform execute ctx name step s = (.ok result,t)) : execute step ctx s = (.ok result,t) := by
  unfold perform at performed
  rw [if_neg unskipped] at performed
  unfold Eff.mapError at performed
  split at performed
  · rename_i given
    cases performed
    exact given
  · cases performed

theorem perform_error {step : DslStep} (unskipped : step.base.skip.getD false = false)
    (failed : execute step ctx s = (.error e,t)) :
    perform execute ctx name step s = (.error (.stepContext name step.typeName ctx.project e),t) := by
  simp only [perform,unskipped,Bool.false_eq_true,if_false,Eff.mapError,failed]

theorem takeStep_error {step : DslStep}
    (failed : perform execute ctx name step (sleepFor step.base.sleep s).2 = (.error e,t)) :
    takeStep execute dsl ctx name step index s = (.error e,t) :=
  (Eff.bind_eq_ok (sleepFor_eq _ _)).trans (Eff.bind_eq_error failed)

theorem takeStep_stays {step : DslStep}
    (performed : perform execute ctx name step (sleepFor step.base.sleep s).2 = (.ok result,t))
    (stays : result.shouldReturn = false) :
    takeStep execute dsl ctx name step index s =
      followNext dsl name index result.nextStep (triggerReload step.base t).2 := by
  refine (Eff.bind_eq_ok (sleepFor_eq _ _)).trans ?_
  refine (Eff.bind_eq_ok performed).trans ?_
  simp only [stays,Bool.false_eq_true,if_false]
  exact Eff.bind_eq_ok (triggerReload_eq _ _)

/-- A step that proceeds moves by its own `next:`. -/
theorem Round.Proceeds.takeStep_eq {step : DslStep} (proceeds : a.Proceeds h execute dsl ctx name step)
    (gives : Eff.Returns step.Gives (execute step ctx)) :
    ∃ t, takeStep execute dsl ctx name step a.index a.state =
      followNext dsl name a.index step.explicitNext t := by
  obtain ⟨result,t,executed,stays,straight⟩ := proceeds.executed
  have next : result.nextStep = step.explicitNext := by
    obtain ⟨returned,_⟩ | rfl | ⟨target,listed,rfl⟩ := gives _ result t executed
    · rw [stays] at returned
      cases returned
    · rfl
    · exact (straight target listed rfl).symm
  rw [← next]
  exact ⟨_,takeStep_stays (perform_ok proceeds.unskipped executed) stays⟩

theorem followNext_fails (missing : target ∉ dsl.stepNames) (other : target ≠ "end") (s : St) :
    ∃ e, followNext dsl name index (some target) s = (.error e,s) := by
  have absent : dsl.stepNames.idxOf? target = none := List.idxOf?_eq_none_iff.mpr missing
  simp only [followNext,if_neg other,absent]
  exact ⟨_,rfl⟩

theorem followNext_goes (present : target ∈ dsl.stepNames) (other : target ≠ "end") (s : St) :
    ∃ place, dsl.stepNames[place]? = some target ∧
      followNext dsl name index (some target) s = (.ok (.goto place),s) := by
  cases found : dsl.stepNames.idxOf? target with
  | none => exact absurd present (List.idxOf?_eq_none_iff.mp found)
  | some place =>
    refine ⟨place,?_,?_⟩
    · obtain ⟨within,same,_⟩ := List.idxOf?_eq_some_iff.mp found
      rw [List.getElem?_eq_getElem within,same]
    · simp only [followNext,if_neg other,found]
      rfl

/-- No round follows one behind the last step. -/
theorem not_turn_of_past (past : dsl.stepNames.length ≤ a.index) : ¬ Turn h execute dsl ctx a b := by
  have none : dsl.stepNames[a.index]? = none := List.getElem?_eq_none past
  intro turn
  cases turn with
  | pass _ named =>
    rw [none] at named
    cases named
  | take dispatched =>
    have named := dispatched.named
    rw [none] at named
    cases named

theorem run_past (past : dsl.stepNames.length ≤ a.index) :
    a.run h execute dsl ctx = (.ok .endOfSteps,a.state) := by
  obtain ⟨budget,index,recursions,state⟩ := a
  have none : dsl.stepNames[index]? = none := List.getElem?_eq_none past
  cases budget with
  | zero =>
    have outside : ¬ index < dsl.stepNames.length := Nat.not_lt.mpr past
    simp only [Round.run,runLoop,if_neg outside]
    rfl
  | succ budget =>
    simp only [Round.run,runLoop,none]
    rfl

/-- The round after a dispatched step is determined. -/
theorem turn_eq (dispatched : a.Dispatches h dsl name step) (turn : Turn h execute dsl ctx a b) :
    ∃ index t, takeStep execute dsl ctx name step a.index a.state = (.ok (.goto index),t) ∧
      b = a.after name index t := by
  cases turn with
  | pass _ named held capped =>
    have same := dispatched.named
    rw [named] at same
    cases same
    have step_same := dispatched.held
    rw [held] at step_same
    cases step_same
    exact absurd dispatched.below (Nat.not_lt.mpr capped)
  | take other taken =>
    have same := dispatched.named
    rw [other.named] at same
    cases same
    have step_same := dispatched.held
    rw [other.held] at step_same
    cases step_same
    exact ⟨_,_,taken,rfl⟩

/-- The target of a step is dispatched next, if it is where the step goes and within the caps. -/
theorem Met.goes (met : Met h dsl a name m target) (other : target ≠ "end")
    (present : target ∈ dsl.stepNames) (dispatched : a.Dispatches h dsl name step)
    (taken : takeStep execute dsl ctx name step a.index a.state = (.ok (.goto index),t))
    (there : dsl.stepNames[index]? = some target) :
    ∃ b next, Turn h execute dsl ctx a b ∧ b.Dispatches h dsl target next := by
  obtain ⟨next,held⟩ := Option.isSome_iff_exists.mp (AList.lookup_isSome.mpr present)
  have room : 0 < a.budget - 1 := Nat.sub_pos_of_lt (met.budget other present)
  exact ⟨_,next,.take dispatched taken,room,there,held,met.below other next held⟩

/-- A step that is a declaration goes on in source order. -/
theorem Met.honoured_inOrder (met : Met h dsl a name m target) (shape : declares m = true)
    (dispatched : a.Dispatches h dsl name step)
    (taken : takeStep execute dsl ctx name step a.index a.state = (.ok (.goto (a.index + 1)),t)) :
    Honoured h execute dsl ctx a target := by
  have order := met.inOrder shape
  refine ⟨?_,?_,?_⟩
  · intro last
    rw [if_pos last] at order
    have past : dsl.stepNames.length ≤ (a.after name (a.index + 1) t).index := by
      show dsl.stepNames.length ≤ a.index + 1
      omega
    have turn : Turn h execute dsl ctx a (a.after name (a.index + 1) t) := .take dispatched taken
    have ended : a.run h execute dsl ctx = (.ok .endOfSteps,t) := by
      rw [turn.run_eq,run_past past]
      rfl
    refine ⟨⟨.endOfSteps,t,ended,rfl⟩,?_⟩
    intro b later other next reaches
    have nothing : b = a.after name (a.index + 1) t := by
      obtain ⟨c,first,rest⟩ := Relation.TransGen.head'_iff.mp later
      obtain ⟨index,u,again,rfl⟩ := turn_eq dispatched first
      rw [taken] at again
      cases again
      obtain rfl | ⟨d,turn,_⟩ := Relation.ReflTransGen.cases_head rest
      · rfl
      · exact absurd turn (not_turn_of_past past)
    have named := reaches.named
    rw [nothing,List.getElem?_eq_none past] at named
    cases named
  · intro other missing
    rw [if_neg other] at order
    exact absurd (List.mem_of_getElem? order) missing
  · intro other present
    rw [if_neg other] at order
    exact met.goes other present dispatched taken order

/-- A step that kept its `next:` follows it. -/
theorem Met.honoured_explicit (met : Met h dsl a name m target) (dispatched : a.Dispatches h dsl name step)
    (taken : takeStep execute dsl ctx name step a.index a.state =
      followNext dsl name a.index (some target) t) :
    Honoured h execute dsl ctx a target := by
  refine ⟨?_,?_,?_⟩
  · rintro rfl
    replace taken : takeStep execute dsl ctx name step a.index a.state = (.ok (.stop .nextEnd),t) := taken
    have ended : a.run h execute dsl ctx = (.ok .nextEnd,t) := by
      rw [dispatched.run_eq,Eff.bind_eq_ok taken]
      rfl
    refine ⟨⟨.nextEnd,t,ended,rfl⟩,?_⟩
    intro b later
    obtain ⟨c,first,_⟩ := Relation.TransGen.head'_iff.mp later
    obtain ⟨index,u,again,rfl⟩ := turn_eq dispatched first
    rw [taken] at again
    cases again
  · intro other missing
    obtain ⟨e,failed⟩ := followNext_fails missing other t
    rw [failed] at taken
    exact ⟨e,t,by rw [dispatched.run_eq,Eff.bind_eq_error taken]⟩
  · intro other present
    obtain ⟨place,there,goes⟩ := followNext_goes present other t
    rw [goes] at taken
    exact met.goes other present dispatched taken there

end Moves

theorem next_honoured (parser : DslParser) (accepted : parser.parseContent content = .ok dsl) (h : Host)
    (fuel : Nat) (ctx : Ctx) (s : St)
    (met : ∀ a name m target, Jumps h (engine h fuel).step dsl ctx parser content s a name m target →
      Met h dsl a name m target) :
    ∀ a name m target, Jumps h (engine h fuel).step dsl ctx parser content s a name m target →
      Honoured h (engine h fuel).step dsl ctx a target := by
  intro a name m target jumps
  obtain ⟨yaml,loaded,entry⟩ := jumps.entry
  obtain ⟨step,proceeds⟩ := jumps.proceeds
  obtain ⟨again,loadedAgain,parsed,_⟩ := DslParser.accepted_inv accepted
  cases loaded.symm.trans loadedAgain
  obtain ⟨read,parsedStep,stored⟩ := Assoc.lookup_traverse parsed entry
  cases stored.symm.trans proceeds.dispatched.held
  obtain ⟨t,taken⟩ := proceeds.takeStep_eq (engine_step_gives h fuel step ctx)
  rw [parseStep_next parsedStep jumps.written] at taken
  cases shape : declares m with
  | true =>
    rw [shape] at taken
    exact (met a name m target jumps).honoured_inOrder shape proceeds.dispatched taken
  | false =>
    rw [shape] at taken
    exact (met a name m target jumps).honoured_explicit proceeds.dispatched taken

def endingContent : String := "start:\n  log: done\n  next: end\nskipped:\n  return: lost\n"

def endingStep : List (Yaml × Yaml) := [(.string "log",.string "done"),(.string "next",.string "end")]

def endingDocument : StringMap Yaml where
  entries := [⟨"start",.mapping endingStep⟩,⟨"skipped",.mapping [(.string "return",.string "lost")]⟩]
  nodupKeys := by simp [List.NodupKeys]

def endingDsl : Dsl where
  steps :=
    { entries := [⟨"start",.log { log := .string "done", next := some "end" }⟩,
        ⟨"skipped",.returnStep { returnValue := .string "lost" }⟩]
      nodupKeys := by simp [List.NodupKeys] }

theorem ending_loaded :
    let parser := DslParser.oneDocument endingContent endingDocument
    parser.serde.yaml (parser.replaceConstants endingContent) = .ok endingDocument :=
  DslParser.oneDocument_loaded (DslParser.replaceConstants_plain _ (by decide +kernel))

theorem ending_accepted :
    (DslParser.oneDocument endingContent endingDocument).parseContent endingContent = .ok endingDsl := by
  rw [DslParser.parseContent_loaded ending_loaded]
  rfl

theorem next_honoured_end :
    let parser := DslParser.oneDocument endingContent endingDocument
    let jumps := Jumps cappedHost (engine cappedHost 1).step endingDsl {} parser endingContent {}
    parser.parseContent endingContent = .ok endingDsl ∧
      (∀ a name m target, jumps a name m target → Met cappedHost endingDsl a name m target) ∧
      jumps (firstRound cappedHost endingDsl {}) "start" endingStep "end" ∧
      Honoured cappedHost (engine cappedHost 1).step endingDsl {} (firstRound cappedHost endingDsl {}) "end" := by
  intro parser jumps
  have met : ∀ a name m target, jumps a name m target → Met cappedHost endingDsl a name m target := by
    intro a name m target jumping
    obtain ⟨yaml,again,entry⟩ := jumping.entry
    cases ending_loaded.symm.trans again
    have written := jumping.written
    have stored := AList.mem_lookup_iff.mp entry
    simp only [endingDocument,List.mem_cons,List.not_mem_nil,or_false,Sigma.mk.injEq,heq_eq_eq,
      Yaml.mapping.injEq] at stored
    obtain ⟨_,rfl⟩ | ⟨_,rfl⟩ := stored
    · cases written
      refine ⟨?_,fun other => absurd rfl other,fun other => absurd rfl other⟩
      intro shape
      exact absurd shape (by decide)
    · cases written
  have first : jumps (firstRound cappedHost endingDsl {}) "start" endingStep "end" := by
    refine ⟨.refl,⟨_,ending_loaded,rfl⟩,rfl,_,⟨by decide,rfl,rfl,by decide⟩,rfl,_,_,rfl,rfl,?_⟩
    intro target listed
    cases listed
  exact ⟨ending_accepted,met,first,next_honoured parser ending_accepted cappedHost 1 {} {} met _ _ _ _ first⟩

/-- A step that only jumps, and the step it means to pass by. -/
def jumpingContent : String := "start:\n  next: done\nskipped:\n  return: lost\ndone:\n  return: kept\n"

def jumpingStep : List (Yaml × Yaml) := [(.string "next",.string "done")]

def jumpingDocument : StringMap Yaml where
  entries :=
    [⟨"start",.mapping jumpingStep⟩,⟨"skipped",.mapping [(.string "return",.string "lost")]⟩,
     ⟨"done",.mapping [(.string "return",.string "kept")]⟩]
  nodupKeys := by simp [List.NodupKeys]

def jumpingDsl : Dsl where
  steps :=
    { entries :=
        [⟨"start",.declaration {}⟩,⟨"skipped",.returnStep { returnValue := .string "lost" }⟩,
         ⟨"done",.returnStep { returnValue := .string "kept" }⟩]
      nodupKeys := by simp [List.NodupKeys] }

/-- The jump is not made: the run returns from the step in between. -/
theorem bare_next_ignored :
    let parser := DslParser.oneDocument jumpingContent jumpingDocument
    parser.parseContent jumpingContent = .ok jumpingDsl ∧
      (∃ a, Jumps cappedHost (engine cappedHost 1).step jumpingDsl {} parser jumpingContent {} a "start"
          jumpingStep "done" ∧
        ¬ Honoured cappedHost (engine cappedHost 1).step jumpingDsl {} a "done") ∧
      ((engine cappedHost 1).run jumpingDsl {} {}).1.toOption.map (·.value) = some (some (.string "lost")) := by
  intro parser
  have loaded : parser.serde.yaml (parser.replaceConstants jumpingContent) = .ok jumpingDocument :=
    DslParser.oneDocument_loaded (DslParser.replaceConstants_plain _ (by decide +kernel))
  have accepted : parser.parseContent jumpingContent = .ok jumpingDsl := by
    rw [DslParser.parseContent_loaded loaded]
    rfl
  have dispatched : (firstRound cappedHost jumpingDsl {}).Dispatches cappedHost jumpingDsl "start"
      (.declaration {}) := ⟨by decide,rfl,rfl,by decide⟩
  refine ⟨accepted,⟨firstRound cappedHost jumpingDsl {},?_,?_⟩,rfl⟩
  · refine ⟨.refl,⟨_,loaded,rfl⟩,rfl,_,dispatched,rfl,_,_,rfl,rfl,?_⟩
    intro target listed
    cases listed
  · intro honoured
    obtain ⟨b,step,turn,reaches⟩ := honoured.goes (by decide) (by decide)
    obtain ⟨index,t,taken,rfl⟩ := turn_eq dispatched turn
    cases taken
    have named := reaches.named
    exact absurd named (by decide)

/-- A round of a run of a loaded document that dispatches a `detach:` or `parallel_http:` step
written with `error: target`, whose execution fails. -/
structure Falters (h : Host) (execute : DslStep → Ctx → M StepResult) (dsl : Dsl) (ctx : Ctx)
    (parser : DslParser) (content : String) (s : St) (a : Round) (name action target : String)
    (e : RuuterError) : Prop where
  reached : RoundOf h execute dsl ctx s a
  kind : action = "detach" ∨ action = "parallel_http"
  entry : ∃ yaml m, parser.serde.yaml (parser.replaceConstants content) = .ok yaml ∧
    yaml.lookup name = some (.mapping m) ∧ keyPresent m action = true ∧
    Yaml.get? m "error" = some (.string target)
  fails : ∃ step t, a.Dispatches h dsl name step ∧ step.base.skip.getD false = false ∧
    execute step ctx (a.slept step) = (.error e,t)

/-- The run continues at the target of an `error:`. -/
def Rerouted (h : Host) (execute : DslStep → Ctx → M StepResult) (dsl : Dsl) (ctx : Ctx) (a : Round)
    (target : String) : Prop :=
  ∃ b, Turn h execute dsl ctx a b ∧ dsl.stepNames[b.index]? = some target

/-- Whatever step fails, its error ends the run. -/
theorem run_of_failure {h : Host} {execute : DslStep → Ctx → M StepResult} {dsl : Dsl} {ctx : Ctx}
    {a : Round} (dispatched : a.Dispatches h dsl name step) (unskipped : step.base.skip.getD false = false)
    (failed : execute step ctx (a.slept step) = (.error e,t)) :
    a.run h execute dsl ctx = (.error (.stepContext name step.typeName ctx.project e),t) ∧
      ¬ Rerouted h execute dsl ctx a target := by
  have taken : takeStep execute dsl ctx name step a.index a.state =
      (.error (.stepContext name step.typeName ctx.project e),t) :=
    takeStep_error (perform_error unskipped failed)
  refine ⟨by rw [dispatched.run_eq,Eff.bind_eq_error taken],?_⟩
  rintro ⟨b,turn,_⟩
  obtain ⟨index,u,went,_⟩ := turn_eq dispatched turn
  rw [taken] at went
  cases went

/-- A step with the key of an action is parsed as that action. -/
theorem parseStep_key {serde : Serde} (parsed : parseStep serde name (.mapping m) = .ok step)
    (entry : (key,v) ∈ keyVariants) (present : keyPresent m key = true) : step.variant = v := by
  obtain ⟨u,json,hint,_,read,_⟩ := parseStep_iff.mp parsed
  obtain ⟨one,_⟩ := (variantHint_iff name).mp hint
  have named := (variantHint_iff name).mpr ⟨one,.key entry present⟩
  cases hint.symm.trans named
  exact reader_variant read

theorem typeName_of_action (kind : action = "detach" ∨ action = "parallel_http")
    (variant : ∀ v, (action,v) ∈ keyVariants → DslStep.variant step = v) : step.typeName = action := by
  obtain rfl | rfl := kind
  · have detach := variant .detach (by decide)
    cases step with
    | detach s => rfl
    | _ => cases detach
  · have parallel := variant .parallelHttp (by decide)
    cases step with
    | parallelHttp s => rfl
    | _ => cases parallel

/-- An `error:` on a `detach:` or `parallel_http:` step is never followed: the run fails with the
error of the step. -/
theorem error_never_routed (parser : DslParser) (accepted : parser.parseContent content = .ok dsl) (h : Host)
    (fuel : Nat) (ctx : Ctx) (s : St)
    (falters : Falters h (engine h (fuel + 1)).step dsl ctx parser content s a name action target e) :
    ¬ Rerouted h (engine h (fuel + 1)).step dsl ctx a target ∧
      ((engine h (fuel + 1)).run dsl ctx s).1 = .error (.stepContext name action ctx.project e) := by
  obtain ⟨step,t,dispatched,unskipped,failed⟩ := falters.fails
  obtain ⟨yaml,m,loaded,entry,present,_⟩ := falters.entry
  obtain ⟨again,loadedAgain,parsed,_⟩ := DslParser.accepted_inv accepted
  cases loaded.symm.trans loadedAgain
  obtain ⟨read,parsedStep,stored⟩ := Assoc.lookup_traverse parsed entry
  cases stored.symm.trans dispatched.held
  have type : step.typeName = action :=
    typeName_of_action falters.kind fun v listed => parseStep_key parsedStep listed present
  obtain ⟨ended,lost⟩ := run_of_failure dispatched unskipped failed
  refine ⟨lost,?_⟩
  have whole := falters.reached.run_eq.trans ended
  rw [type] at whole
  exact congrArg Prod.fst (Eff.bind_eq_error whole)

/-- A configuration whose detach registry is full. -/
def crowdedHost : Host where
  maxIterations := 4
  detach := fun _ => .overflow 1

def overflowContent : String :=
  "work:\n  detach:\n    do:\n      - log: later\n  error: recover\nrecover:\n  return: busy\n"

def overflowDocument : StringMap Yaml where
  entries :=
    [⟨"work",.mapping
      [(.string "detach",.mapping [(.string "do",.sequence [.mapping [(.string "log",.string "later")]])]),
       (.string "error",.string "recover")]⟩,
     ⟨"recover",.mapping [(.string "return",.string "busy")]⟩]
  nodupKeys := by simp [List.NodupKeys]

def overflowStep : DslStep := .detach { detach := { body := [.log { log := .string "later" }] } }

def overflowDsl : Dsl where
  steps :=
    { entries := [⟨"work",overflowStep⟩,⟨"recover",.returnStep { returnValue := .string "busy" }⟩]
      nodupKeys := by simp [List.NodupKeys] }

def overflowError : RuuterError :=
  .dslExecution "detach" ("detach registry full (cap: " ++ toString (1 : UInt64).toNat ++
    "). Reduce fan-out, raise detach.max_inflight, or set null to opt out.")

theorem overflow_loaded :
    let parser := DslParser.oneDocument overflowContent overflowDocument
    parser.serde.yaml (parser.replaceConstants overflowContent) = .ok overflowDocument :=
  DslParser.oneDocument_loaded (DslParser.replaceConstants_plain _ (by decide +kernel))

theorem overflow_accepted :
    (DslParser.oneDocument overflowContent overflowDocument).parseContent overflowContent =
      .ok overflowDsl := by
  rw [DslParser.parseContent_loaded overflow_loaded]
  rfl

theorem overflow_dispatched :
    (firstRound crowdedHost overflowDsl {}).Dispatches crowdedHost overflowDsl "work" overflowStep :=
  ⟨by decide,rfl,rfl,by decide⟩

theorem overflow_falters :
    Falters crowdedHost (engine crowdedHost 1).step overflowDsl {}
      (DslParser.oneDocument overflowContent overflowDocument) overflowContent {}
      (firstRound crowdedHost overflowDsl {}) "work" "detach" "recover" overflowError :=
  ⟨.refl,.inl rfl,⟨_,_,overflow_loaded,rfl,rfl,rfl⟩,_,_,overflow_dispatched,rfl,rfl⟩

theorem error_never_routed_overflow :
    let parser := DslParser.oneDocument overflowContent overflowDocument
    let a := firstRound crowdedHost overflowDsl {}
    parser.parseContent overflowContent = .ok overflowDsl ∧
      Falters crowdedHost (engine crowdedHost 1).step overflowDsl {} parser overflowContent {} a "work"
        "detach" "recover" overflowError ∧
      ¬ Rerouted crowdedHost (engine crowdedHost 1).step overflowDsl {} a "recover" ∧
      ((engine crowdedHost 1).run overflowDsl {} {}).1 =
        .error (.stepContext "work" "detach" "" overflowError) :=
  ⟨overflow_accepted,overflow_falters,
    error_never_routed _ overflow_accepted crowdedHost 0 {} {} overflow_falters⟩

/-- A full registry is answered with the error of the step, not by `recover`. -/
theorem overflow_aborts :
    (DslParser.oneDocument overflowContent overflowDocument).parseContent overflowContent =
        .ok overflowDsl ∧
      Falters crowdedHost (engine crowdedHost 1).step overflowDsl {}
        (DslParser.oneDocument overflowContent overflowDocument) overflowContent {}
        (firstRound crowdedHost overflowDsl {}) "work" "detach" "recover" overflowError ∧
      ¬ (Rerouted crowdedHost (engine crowdedHost 1).step overflowDsl {}
        (firstRound crowdedHost overflowDsl {}) "recover") ∧
      ((engine crowdedHost 1).run overflowDsl {} {}).1.toOption.map (·.status) = none := by
  refine ⟨overflow_accepted,overflow_falters,?_,rfl⟩
  have failed : (engine crowdedHost 1).step overflowStep {}
      ((firstRound crowdedHost overflowDsl {}).slept overflowStep) = (.error overflowError,_) := rfl
  exact (run_of_failure overflow_dispatched rfl failed).2

end Ruuter
