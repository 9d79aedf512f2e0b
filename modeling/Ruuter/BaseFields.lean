import Ruuter.Layers
import Ruuter.NestedGrammar

/-! The base fields `skip:` and `sleep:`. The run loop enforces them for the named steps of a
DSL; the steps of a `do:` block are dispatched past the loop. -/
namespace Ruuter

/-- The steps nested in the bodies of a step, at any depth. -/
inductive DslStep.Within : DslStep → DslStep → Prop
  | body {step inner : DslStep} (member : inner ∈ step.body) : Within inner step
  | deeper {step sub inner : DslStep} (member : sub ∈ step.body) (inside : Within inner sub) :
    Within inner step

/-- A step without `skip: true` and without `sleep:`. -/
def DslStep.Immediate (step : DslStep) : Prop := step.base.skip.getD false = false ∧ step.base.sleep = none

/-- No nested step of a DSL carries `skip: true` or `sleep:`. -/
def Dsl.PlainBodies (dsl : Dsl) : Prop :=
  ∀ name step, dsl.getStep name = some step → ∀ inner : DslStep, inner.Within step → inner.Immediate

/-- Every step that was dispatched is one that is not skipped, and one that sleeps had slept
right before. -/
def BaseHonoured (trace : List Event) : Prop :=
  ∀ before step after, trace = before ++ .dispatched step :: after →
    step.base.skip.getD false = false ∧
      ∀ ms, step.base.sleep = some ms → ∃ earlier, before = earlier ++ [.slept ms]

/-- The base fields are honoured, unless a DSL was entered whose bodies carry some. -/
def Settled (trace : List Event) : Prop :=
  (∃ dsl, .entered dsl ∈ trace ∧ ¬ dsl.PlainBodies) ∨ BaseHonoured trace

/-- A nested step that may be dispatched as it is. -/
def DslStep.Plain (step : DslStep) : Prop := step.Immediate ∧ ∀ inner : DslStep, inner.Within step → inner.Immediate

theorem plain_of_body {step : DslStep} (within : ∀ inner : DslStep, inner.Within step → inner.Immediate)
    (member : sub ∈ step.body) : sub.Plain :=
  ⟨within sub (.body member),fun inner inside => within inner (.deeper member inside)⟩

/-- A trace stays honoured when it grows by an event that is in place. -/
theorem BaseHonoured.snoc (honoured : BaseHonoured trace)
    (inPlace : ∀ step, event = .dispatched step → step.base.skip.getD false = false ∧
      ∀ ms, step.base.sleep = some ms → ∃ earlier, trace = earlier ++ [.slept ms]) :
    BaseHonoured (trace ++ [event]) := by
  intro before step after eq
  obtain rfl | ⟨middle,last,rfl⟩ := List.eq_nil_or_concat after
  · obtain ⟨rfl,same⟩ := List.append_inj' eq rfl
    exact inPlace step (List.singleton_inj.mp same)
  · rw [List.concat_eq_append,← List.cons_append,← List.append_assoc] at eq
    exact honoured before step middle (List.append_inj' eq rfl).1

theorem Settled.snoc (settled : Settled trace)
    (inPlace : ∀ step, event = .dispatched step → step.base.skip.getD false = false ∧
      ∀ ms, step.base.sleep = some ms → ∃ earlier, trace = earlier ++ [.slept ms]) :
    Settled (trace ++ [event]) := by
  obtain ⟨dsl,entered,other⟩ | honoured := settled
  · exact .inl ⟨dsl,List.mem_append_left _ entered,other⟩
  · exact .inr (honoured.snoc inPlace)

/-- An invariant of the events alone, that events within a step keep. -/
theorem trace_layers {T : List Event → Prop}
    (grows : ∀ trace (event : Event), event.WithinStep → T trace → T (trace ++ [event])) :
    Layers (fun _ s => T s.trace) fun _ => True where
  frame stack := by
    refine free_frame ?_ ?_
    · intro s t holds _ same
      rwa [same]
    · intro event within s holds
      exact grows s.trace event within holds
  isolate holds := holds
  rejoin _ holds := holds
  push holds := holds
  pop holds := holds

theorem emit_remembers (event other : Event) : Eff.Keeps (fun s => event ∈ s.trace) (emit other) :=
  fun _ member => List.mem_append_left _ member

theorem remembers_layers (event : Event) : Layers (fun _ s => event ∈ s.trace) fun _ => True :=
  trace_layers (T := (event ∈ ·)) fun _ _ _ member => List.mem_append_left _ member

theorem step_remembers {engine : Engine} (starts : Starts (fun _ s => event ∈ s.trace) (fun _ => True) engine) :
    Eff.Keeps (fun s => event ∈ s.trace) (executeSingleStep h engine step ctx) := by
  refine Eff.keeps_bind (emit_remembers event (.dispatched step)) fun _ => ?_
  exact executeSingleStepImpl_keeps (remembers_layers event) starts [] (fun _ _ => trivial)
    (fun _ _ => trivial) (.inl fun _ => trivial)

theorem loop_remembers {engine : Engine} (starts : Starts (fun _ s => event ∈ s.trace) (fun _ => True) engine) :
    Eff.Keeps (fun s => event ∈ s.trace)
      (runLoop h (executeSingleStep h engine) dsl ctx budget index recursions) :=
  runLoop_keeps fun _ _ _ _ => takeStep_keeps ((remembers_layers event).frame []) (step_remembers starts)

/-- What was once in the trace stays there. -/
theorem engine_remembers (h : Host) (event : Event) (fuel : Nat) :
    Starts (fun _ s => event ∈ s.trace) (fun _ => True) (engine h fuel) := by
  refine engine_starts (remembers_layers event) (fun _ step _ => emit_remembers event (.dispatched step))
    (fun _ _ _ _ => trivial) ?_ fuel
  intro fuel starts stack dsl ctx
  exact Eff.keeps_bind (emit_remembers event (.entered dsl)) fun _ => loop_remembers starts

theorem settled_layers : Layers (fun _ s => Settled s.trace) fun _ => True := by
  refine trace_layers (T := Settled) fun trace event within settled => settled.snoc ?_
  intro step eq
  cases eq
  exact within.elim

/-- A nested step without base fields may be dispatched from anywhere. -/
theorem settled_dispatch {step : DslStep} (immediate : step.Immediate) :
    Eff.Keeps (fun s => Settled s.trace) (emit (.dispatched step)) := by
  intro s settled
  refine settled.snoc fun same eq => ?_
  cases eq
  refine ⟨immediate.1,fun ms sleeps => ?_⟩
  rw [immediate.2] at sleeps
  cases sleeps

section Top
variable {h : Host} {engine : Engine} {dsl : Dsl} {ctx : Ctx}
  (starts : Starts (fun _ s => Settled s.trace) DslStep.Plain engine)
include starts

/-- The run loop sleeps before it dispatches, and does not dispatch what is skipped. -/
theorem takeStep_settled {step : DslStep} (within : ∀ inner : DslStep, inner.Within step → inner.Immediate) :
    Eff.Keeps (fun s => Settled s.trace) (takeStep (executeSingleStep h engine) dsl ctx name step index) := by
  have frame := settled_layers.frame []
  intro s settled
  have slept : Settled (sleepFor step.base.sleep s).2.trace := sleepFor_keeps frame s settled
  have performed : Settled (perform (executeSingleStep h engine) ctx name step
      (sleepFor step.base.sleep s).2).2.trace := by
    unfold perform
    split
    · exact slept
    · rename_i unskipped
      have dispatched : Settled ((sleepFor step.base.sleep s).2.trace ++ [.dispatched step]) := by
        refine slept.snoc fun same eq => ?_
        cases eq
        refine ⟨by simpa using unskipped,fun ms sleeps => ⟨s.trace,?_⟩⟩
        rw [sleeps]
        rfl
      have acted : Eff.Keeps (fun s => Settled s.trace) (executeSingleStepImpl h engine step ctx) :=
        executeSingleStepImpl_keeps settled_layers starts [] (fun _ _ => trivial)
          (fun sub member => plain_of_body within member) (.inl fun _ => trivial)
      rw [Eff.mapError_state]
      exact acted _ dispatched
  unfold takeStep
  rw [Eff.bind_eq_ok (sleepFor_eq step.base.sleep s)]
  refine Eff.bind_state (I := fun s : St => Settled s.trace) performed fun result => ?_
  split
  · exact Eff.keeps_pure _
  · exact Eff.keeps_bind (triggerReload_keeps frame) fun _ => followNext_keeps

/-- The run of a DSL keeps the trace settled: either its bodies are plain, or its entry is on
record. -/
theorem runToEnd_settled (remembers : Starts (fun _ s => Event.entered dsl ∈ s.trace) (fun _ => True) engine) :
    Eff.Keeps (fun s => Settled s.trace) (runToEnd h (executeSingleStep h engine) dsl ctx) := by
  intro s settled
  have entered : Settled (s.trace ++ [.entered dsl]) := by
    refine settled.snoc fun step eq => ?_
    cases eq
  by_cases plain : dsl.PlainBodies
  · refine runLoop_keeps (I := fun s : St => Settled s.trace) (fun name step index found => ?_) _ entered
    exact takeStep_settled starts (plain name step found)
  · have recorded : Event.entered dsl ∈ s.trace ++ [.entered dsl] :=
      List.mem_append_right _ (List.mem_singleton_self _)
    exact .inl ⟨dsl,loop_remembers remembers _ recorded,plain⟩

end Top

theorem engine_settled (h : Host) (fuel : Nat) :
    Starts (fun _ s => Settled s.trace) DslStep.Plain (engine h fuel) := by
  refine engine_starts settled_layers (fun _ step plain => settled_dispatch plain.1)
    (fun step plain sub member => plain_of_body plain.2 member) ?_ fuel
  intro fuel starts stack dsl ctx
  exact runToEnd_settled starts (engine_remembers h (.entered dsl) fuel)

theorem base_fields_honoured (h : Host) (fuel : Nat) (dsl : Dsl) (ctx : Ctx) (s : St) (fresh : s.trace = [])
    (plain : ∀ d, .entered d ∈ ((engine h fuel).run dsl ctx s).2.trace → d.PlainBodies) :
    BaseHonoured ((engine h fuel).run dsl ctx s).2.trace := by
  have initial : Settled s.trace := by
    refine .inr fun before step after eq => ?_
    rw [fresh] at eq
    cases before <;> cases eq
  obtain ⟨d,entered,other⟩ | honoured := (engine_settled h fuel).run [] dsl ctx s initial
  · exact absurd (plain d entered) other
  · exact honoured

/-- A step that sleeps, a loop over one item, and a step that is skipped. -/
def pausingDsl : Dsl where
  steps :=
    { entries :=
        [⟨"pause",.log { log := .string "ready", base := { sleep := some 5 } }⟩,
         ⟨"each",.iterate { iterate :=
            { «over» := .array [.ofNat 1], itemVar := "item", body := [.log { log := .string "done" }] } }⟩,
         ⟨"skipped",.log { log := .string "never", base := { skip := some true } }⟩]
      nodupKeys := by simp [List.NodupKeys] }

theorem pausing_plain : pausingDsl.PlainBodies := by
  intro name step held inner within
  have stored := AList.mem_lookup_iff.mp held
  simp only [pausingDsl,List.mem_cons,List.not_mem_nil,or_false,Sigma.mk.injEq,heq_eq_eq] at stored
  obtain ⟨_,rfl⟩ | ⟨_,rfl⟩ | ⟨_,rfl⟩ := stored
  · cases within with
    | body member => cases member
    | deeper member => cases member
  · cases within with
    | body member =>
      obtain rfl := List.mem_singleton.mp member
      exact ⟨rfl,rfl⟩
    | deeper member inside =>
      obtain rfl := List.mem_singleton.mp member
      cases inside with
      | body member => cases member
      | deeper member => cases member
  · cases within with
    | body member => cases member
    | deeper member => cases member

theorem pausing_honoured :
    (∀ d, .entered d ∈ ((engine {} 2).run pausingDsl {} {}).2.trace → d.PlainBodies) ∧
      BaseHonoured ((engine {} 2).run pausingDsl {} {}).2.trace := by
  have plain : ∀ d, .entered d ∈ ((engine {} 2).run pausingDsl {} {}).2.trace → d.PlainBodies := by
    intro d entered
    have trace : ((engine {} 2).run pausingDsl {} {}).2.trace = [.entered pausingDsl,.slept 5,
      .dispatched _,.evaluated _,.dispatched _,.evaluated _,.dispatched _,.evaluated _] := rfl
    rw [trace] at entered
    simp only [List.mem_cons,Event.entered.injEq,reduceCtorEq,List.not_mem_nil,or_false] at entered
    rw [entered]
    exact pausing_plain
  exact ⟨plain,base_fields_honoured {} 2 pausingDsl {} {} rfl plain⟩

/-- A nested step that asks to be skipped. -/
def skippingContent : String :=
  "each:\n  iterate:\n    over: [1]\n    as: item\n    do:\n      - log: done\n        skip: true\n"

def skippingDocument : StringMap Yaml :=
  AList.singleton "each" (.mapping [(.string "iterate",.mapping
    [(.string "over",.sequence [.number (.posInt 1)]),(.string "as",.string "item"),
     (.string "do",.sequence [.mapping [(.string "log",.string "done"),(.string "skip",.bool true)]])])])

def skippingDsl : Dsl where
  steps := AList.singleton "each" (.iterate { iterate :=
    { «over» := .array [.number (.posInt 1)], itemVar := "item"
      body := [.log { log := .string "done", base := { skip := some true } }] } })

/-- The nested step is dispatched all the same. -/
theorem nested_skip_ignored :
    (DslParser.oneDocument skippingContent skippingDocument).parseContent skippingContent = .ok skippingDsl ∧
      .dispatched (.log { log := .string "done", base := { skip := some true } }) ∈
        ((engine {} 2).run skippingDsl {} {}).2.trace ∧
      ¬ BaseHonoured ((engine {} 2).run skippingDsl {} {}).2.trace := by
  have dispatched : .dispatched (.log { log := .string "done", base := { skip := some true } }) ∈
      ((engine {} 2).run skippingDsl {} {}).2.trace := by
    have trace : ((engine {} 2).run skippingDsl {} {}).2.trace = [.entered _,.dispatched _,.evaluated _,
      .dispatched (.log { log := .string "done", base := { skip := some true } }),.evaluated _] := rfl
    rw [trace]
    simp
  refine ⟨?_,dispatched,?_⟩
  · rw [DslParser.parseContent_loaded
      (DslParser.oneDocument_loaded (DslParser.replaceConstants_plain _ (by decide +kernel)))]
    rfl
  · intro honoured
    obtain ⟨before,after,split⟩ := List.append_of_mem dispatched
    have unskipped := (honoured before _ after split).1
    cases unskipped

end Ruuter
