import Ruuter.Frame

/-! Where scripts come from. A run keeps three things: the guard stack, the DSLs it entered,
and a justification of every script and every evaluated value by the text of one of these. -/
namespace Ruuter

/-- No step of the run was a `return` with whole-map headers. -/
def Plain (trace : List Event) : Prop :=
  ∀ step, .dispatched step ∈ trace → step.wholeMapReturn = false

/-- A script is a segment or a line of a text of an entered DSL; an evaluated value is
written in an entered DSL. -/
def Justified (trace : List Event) : Event → Prop
  | .script source => ∃ dsl, .entered dsl ∈ trace ∧ ∃ text ∈ dsl.texts, source ∈ scriptSources text
  | .evaluated value => ∃ dsl, .entered dsl ∈ trace ∧ value ∈ dsl.values
  | _ => True

/-- The events of a run: the DSLs it is inside of were entered, and every event was justified
as long as the run was plain. -/
structure Record (inside : Dsl → Prop) (spoiled : Prop) (trace : List Event) : Prop where
  entered : ∀ dsl, inside dsl → .entered dsl ∈ trace
  not_plain : spoiled → ¬ Plain trace
  justified : ∀ past, past <+: trace → Plain past → ∀ event ∈ past, Justified past event

/-- What a run keeps, from a start on: the guard stack and the record of its events. -/
structure Inv (start : List Event) (stack : List String) (inside : Dsl → Prop) (spoiled : Prop)
    (s : St) : Prop where
  stack_eq : s.guardStack = stack
  record : ∃ later, s.trace = start ++ later ∧ Record inside spoiled later

/-- A value that may be evaluated. -/
def Allowed (inside : Dsl → Prop) (spoiled : Prop) (value : Json) : Prop :=
  spoiled ∨ ∃ dsl, inside dsl ∧ value ∈ dsl.values

theorem Plain.of_append (plain : Plain (trace ++ later)) : Plain trace :=
  fun step member => plain step (List.mem_append_left _ member)

theorem Justified.append (justified : Justified trace event) : Justified (trace ++ later) event := by
  cases event with
  | script source =>
    obtain ⟨dsl,member,found⟩ := justified
    exact ⟨dsl,List.mem_append_left _ member,found⟩
  | evaluated value =>
    obtain ⟨dsl,member,found⟩ := justified
    exact ⟨dsl,List.mem_append_left _ member,found⟩
  | _ => trivial

variable {start : List Event} {stack : List String} {inside : Dsl → Prop} {spoiled : Prop}

theorem Record.weaken {inner : Dsl → Prop} {more : Prop} (record : Record inner more trace)
    (fewer : ∀ dsl, inside dsl → inner dsl) (less : spoiled → more) : Record inside spoiled trace where
  entered := fun dsl given => record.entered dsl (fewer dsl given)
  not_plain := fun given => record.not_plain (less given)
  justified := record.justified

/-- The trace grows by an event that is justified in the longer trace. -/
theorem Record.snoc (record : Record inside spoiled trace)
    (given : Plain (trace ++ [event]) → Justified (trace ++ [event]) event) :
    Record inside spoiled (trace ++ [event]) where
  entered := fun dsl entered => List.mem_append_left _ (record.entered dsl entered)
  not_plain := fun held plain => record.not_plain held plain.of_append
  justified := by
    intro past before plain other member
    rcases List.prefix_concat_iff.mp before with rfl | earlier
    · rcases List.mem_append.mp member with old | new
      · exact (record.justified trace List.prefix_rfl plain.of_append other old).append
      · rw [List.mem_singleton.mp new]
        exact given plain
    · exact record.justified past earlier plain other member

theorem Inv.weaken {inner : Dsl → Prop} {more : Prop} (inv : Inv start stack inner more s)
    (fewer : ∀ dsl, inside dsl → inner dsl) (less : spoiled → more) :
    Inv start stack inside spoiled s := by
  obtain ⟨later,eq,record⟩ := inv.record
  exact ⟨inv.stack_eq,later,eq,record.weaken fewer less⟩

theorem Inv.emit {inner : Dsl → Prop} {more : Prop} (inv : Inv start stack inside spoiled s)
    (given : ∀ trace, Record inside spoiled trace → Record inner more (trace ++ [event])) :
    Inv start stack inner more { s with trace := s.trace ++ [event] } := by
  obtain ⟨later,eq,record⟩ := inv.record
  refine ⟨inv.stack_eq,later ++ [event],?_,given later record⟩
  simp only [eq,List.append_assoc]

/-- The parts of the state the invariant does not look at. -/
theorem Inv.congr (inv : Inv start stack inside spoiled s) (same : t.guardStack = s.guardStack)
    (trace : t.trace = s.trace) : Inv start stack inside spoiled t where
  stack_eq := same.trans inv.stack_eq
  record := by rw [trace]; exact inv.record

theorem keeps_emit (given : ∀ trace, Record inside spoiled trace → Plain (trace ++ [event]) →
    Justified (trace ++ [event]) event) : Eff.Keeps (Inv start stack inside spoiled) (emit event) :=
  fun _ inv => inv.emit fun trace record => record.snoc (given trace record)

/-- Events other than scripts and evaluations need no justification. -/
theorem keeps_emit_other (free : ∀ trace, Justified trace event) :
    Eff.Keeps (Inv start stack inside spoiled) (emit event) :=
  keeps_emit fun _ _ _ => free _

/-- A text whose scripts may run. -/
def AllowedText (inside : Dsl → Prop) (spoiled : Prop) (text : String) : Prop :=
  spoiled ∨ ∃ dsl, inside dsl ∧ text ∈ dsl.texts

section Evaluate
variable {h : Host} {ctx : Ctx}

theorem allowed_scripts (allowed : AllowedText inside spoiled text) :
    ScriptsKeep (Inv start stack inside spoiled) h ctx text := by
  intro source found
  refine executeJs_keeps (fun _ _ inv => inv.congr) (keeps_emit ?_)
  intro trace record plain
  rcases allowed with held | ⟨dsl,entered,member⟩
  · exact absurd plain.of_append (record.not_plain held)
  · exact ⟨dsl,List.mem_append_left _ (record.entered dsl entered),text,member,found⟩

/-- Only allowed values are evaluated. -/
theorem inv_frame : Frame (Inv start stack inside spoiled) (Allowed inside spoiled) where
  congr := fun _ _ inv => inv.congr
  emits := by
    intro event outward
    refine keeps_emit_other fun trace => ?_
    cases event with
    | script source => exact outward.elim
    | evaluated value => exact outward.elim
    | _ => trivial
  evaluates := by
    intro value h ctx allowed
    refine evaluate_keeps (fun _ _ inv => inv.congr) (keeps_emit ?_) ?_
    · intro trace record plain
      rcases allowed with held | ⟨dsl,entered,member⟩
      · exact absurd plain.of_append (record.not_plain held)
      · exact ⟨dsl,List.mem_append_left _ (record.entered dsl entered),member⟩
    · intro text member
      apply allowed_scripts
      rcases allowed with held | ⟨dsl,entered,written⟩
      · exact .inl held
      · exact .inr ⟨dsl,entered,List.mem_flatMap.mpr ⟨value,written,member⟩⟩

end Evaluate
end Ruuter
