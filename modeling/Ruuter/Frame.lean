import Ruuter.Engine

/-! What a step leaves alone. An invariant of the guard stack and of the events survives every
executor that runs no other step, provided it survives the evaluation of the values the step
holds. -/
namespace Ruuter

/-- The values of a map argument that are written in the DSL. -/
def argValues : Option Json → List Json
  | some (.object members) => members.map (·.2)
  | some (.string text) => [.string text]
  | _ => []

def HttpArgs.values (args : HttpArgs) : List Json :=
  .string args.url :: args.body.toList ++ argValues args.query ++ argValues args.headers

def StateOp.values : StateOp → List Json
  | .get key _ | .delete key => [.string key]
  | .set key value => [.string key,value]

def BroadcastWhere.values (bw : BroadcastWhere) : List Json :=
  bw.tag :: bw.equals.toList ++ bw.contains.toList

mutual

/-- The values a step holds for evaluation, those of nested steps included. -/
@[simp] def DslStep.values : DslStep → List Json
  | .assign s => s.assign.entries.map (·.2)
  | .returnStep s => s.returnValue :: s.status.toList ++ argValues s.headers
  | .http s => s.args.values
  | .httpMock s => s.args.response :: s.args.request.toList
  | .switch s => s.switch.map fun condition => .string condition.condition
  | .log s => [s.log]
  | .template s => argValues s.body ++ argValues s.query ++ argValues s.headers
  | .state s => s.state.values
  | .iterate ⟨⟨list,_,body,collect,_,_⟩,_,_⟩ => list :: collect.toList ++ bodyValues body
  | .parallelHttp s =>
    .string s.parallelHttp.peers :: s.parallelHttp.args.values ++
      ((s.parallelHttp.earlyExitOn.bind (·.bodyPredicate)).map Json.string).toList
  | .detach ⟨⟨body,_⟩,_,_⟩ => bodyValues body
  | .wsSend s =>
    s.wsSend.payload :: (s.wsSend.broadcastWhere.map BroadcastWhere.values).getD [] ++
      s.wsSend.to.toList
  | .wsTag s => s.wsTag.set.entries.map (·.2)
  | .singleFlight ⟨⟨key,_,body,_⟩,_,_⟩ => .string key :: bodyValues body
  | .declaration _ => []

def bodyValues : List DslStep → List Json
  | [] => []
  | step :: rest => step.values ++ bodyValues rest

end

def Dsl.values (dsl : Dsl) : List Json := dsl.steps.entries.flatMap (·.2.values)

/-- The strings of a DSL that can hold expressions. -/
def Dsl.texts (dsl : Dsl) : List String := dsl.values.flatMap Json.strings

/-- A `return` whose headers are one expression: the only step that evaluates the values of
an object it got from an evaluation. -/
def DslStep.wholeMapReturn : DslStep → Bool
  | .returnStep s =>
    match s.headers with
    | some (.string text) => (wholeExpression text).isSome
    | _ => false
  | _ => false

/-- The steps that run no other step and no DSL. -/
def DslStep.Leaf : DslStep → Prop
  | .http _ | .template _ | .iterate _ | .detach _ | .singleFlight _ => False
  | _ => True

/-- The events that are neither part of the run structure nor of an evaluation. -/
def Event.Outward : Event → Prop
  | .entered _ | .dispatched _ | .evaluated _ | .script _ => False
  | _ => True

/-- An invariant that looks at nothing but the guard stack and the events. -/
def Structural (I : St → Prop) : Prop :=
  ∀ s t, I s → t.guardStack = s.guardStack → t.trace = s.trace → I t

/-- A structural invariant that the evaluation of certain values preserves. -/
structure Frame (I : St → Prop) (ok : Json → Prop) : Prop where
  congr : Structural I
  emits : event.Outward → Eff.Keeps I (emit event)
  evaluates : ok value → Eff.Keeps I (evaluate h ctx value)

variable {I : St → Prop} {ok : Json → Prop} {h : Host} {ctx : Ctx}

theorem keeps_ofExcept (outcome : Except RuuterError α) : Eff.Keeps I (ofExcept outcome) := by
  cases outcome with
  | ok a => exact Eff.keeps_pure a
  | error e => exact Eff.keeps_throw e

namespace Frame
variable (frame : Frame I ok)
include frame

theorem consult : Eff.Keeps I (Ruuter.consult answer) :=
  fun _ holds => frame.congr _ _ holds rfl rfl

theorem setVariable : Eff.Keeps I (Ruuter.setVariable key value) :=
  fun _ holds => frame.congr _ _ holds rfl rfl

theorem interference : Eff.Keeps I (Ruuter.interference h) :=
  fun _ holds => frame.congr _ _ holds rfl rfl

theorem modifyStore (change : St → StateStore) :
    Eff.Keeps I (Eff.modify fun s => { s with store := change s } : M Unit) :=
  fun _ holds => frame.congr _ _ holds rfl rfl

theorem bindResult : Eff.Keeps I (Ruuter.bindResult result value) := by
  cases result with
  | none => exact Eff.keeps_pure ()
  | some name => exact frame.setVariable

end Frame

section Evaluate

/-- The scripts of a text preserve the invariant. -/
def ScriptsKeep (I : St → Prop) (h : Host) (ctx : Ctx) (text : String) : Prop :=
  ∀ source ∈ scriptSources text, Eff.Keeps I (executeJs h ctx source)

theorem executeJs_keeps (congr : Structural I) (emitted : Eff.Keeps I (emit (.script source))) :
    Eff.Keeps I (executeJs h ctx source) := by
  apply Eff.keeps_bind emitted
  intro _
  refine Eff.keeps_bind Eff.keeps_get fun s => ?_
  refine Eff.keeps_bind (fun _ holds => congr _ _ holds rfl rfl) fun answer => ?_
  cases answer with
  | ok value => exact Eff.keeps_pure value
  | error message => exact Eff.keeps_throw _

theorem interpolate_keeps {segments : List Segment}
    (kept : ∀ segment ∈ segments, Eff.Keeps I (executeJs h ctx segment.inner)) :
    Eff.Keeps I (interpolate h ctx text segments cursor out failed) := by
  induction segments generalizing cursor out failed with
  | nil =>
    cases failed with
    | none => exact Eff.keeps_pure _
    | some e => exact Eff.keeps_throw e
  | cons segment rest ih =>
    have later : ∀ segment ∈ rest, Eff.Keeps I (executeJs h ctx segment.inner) :=
      fun segment member => kept segment (List.mem_cons_of_mem _ member)
    refine Eff.keeps_bind (Eff.keeps_attempt (kept _ List.mem_cons_self)) fun outcome => ?_
    cases outcome with
    | ok value => exact ih later
    | error e => exact ih later

theorem evaluateString_keeps (kept : ScriptsKeep I h ctx text) :
    Eff.Keeps I (evaluateString h ctx text) := by
  unfold evaluateString
  split
  · rename_i inner whole
    apply Eff.keeps_bind (kept inner (wholeExpression_mem whole))
    intro value
    exact Eff.keeps_pure _
  · exact interpolate_keeps fun segment member => kept _ (segment_mem member)

mutual

theorem evaluateWith_keeps : (value : Json) →
    (∀ text ∈ value.strings, ScriptsKeep I h ctx text) →
    Eff.Keeps I (evaluateWith h ctx value)
  | .null, _ => by
    rw [evaluateWith]
    exact Eff.keeps_pure _
  | .bool b, _ => by
    rw [evaluateWith]
    exact Eff.keeps_pure _
  | .number n, _ => by
    rw [evaluateWith]
    exact Eff.keeps_pure _
  | .string text, allowed => by
    rw [evaluateWith]
    exact evaluateString_keeps (allowed text (by simp [Json.strings]))
  | .array items, allowed => by
    rw [evaluateWith]
    refine Eff.keeps_bind (evaluateItems_keeps items ?_) fun _ => Eff.keeps_pure _
    intro text member
    exact allowed text (by rwa [Json.strings])
  | .object members, allowed => by
    rw [evaluateWith]
    refine Eff.keeps_bind (evaluateMembers_keeps members ?_) fun _ => Eff.keeps_pure _
    intro text member
    exact allowed text (by rwa [Json.strings])

theorem evaluateItems_keeps : (items : List Json) →
    (∀ text ∈ Json.stringsList items, ScriptsKeep I h ctx text) →
    Eff.Keeps I (evaluateItems h ctx items)
  | [], _ => by
    rw [evaluateItems]
    exact Eff.keeps_pure _
  | item :: rest, allowed => by
    rw [evaluateItems]
    rw [Json.stringsList] at allowed
    refine Eff.keeps_bind (evaluateWith_keeps item fun text member =>
      allowed text (List.mem_append_left _ member)) fun _ => ?_
    refine Eff.keeps_bind (evaluateItems_keeps rest fun text member =>
      allowed text (List.mem_append_right _ member)) fun _ => Eff.keeps_pure _

theorem evaluateMembers_keeps : (members : List (String × Json)) →
    (∀ text ∈ Json.stringsMembers members, ScriptsKeep I h ctx text) →
    Eff.Keeps I (evaluateMembers h ctx members)
  | [], _ => by
    rw [evaluateMembers]
    exact Eff.keeps_pure _
  | (key,value) :: rest, allowed => by
    rw [evaluateMembers]
    rw [Json.stringsMembers] at allowed
    refine Eff.keeps_bind (evaluateWith_keeps value fun text member =>
      allowed text (List.mem_append_left _ member)) fun _ => ?_
    refine Eff.keeps_bind (evaluateMembers_keeps rest fun text member =>
      allowed text (List.mem_append_right _ member)) fun _ => Eff.keeps_pure _

end
/-- An evaluation preserves what its own event and its scripts preserve. -/
theorem evaluate_keeps (congr : Structural I) (emitted : Eff.Keeps I (emit (.evaluated value)))
    (scripts : ∀ text ∈ value.strings, ScriptsKeep I h ctx text) :
    Eff.Keeps I (evaluate h ctx value) := by
  apply Eff.keeps_bind emitted
  intro _
  split
  · refine Eff.keeps_bind Eff.keeps_get fun s => ?_
    refine Eff.keeps_bind (fun _ holds => congr _ _ holds rfl rfl) fun failed => ?_
    cases failed with
    | some message => exact Eff.keeps_throw _
    | none => exact evaluateWith_keeps value scripts
  · exact Eff.keeps_pure value

end Evaluate

section Executors

/-- A string that is no expression as a whole evaluates to a string. -/
theorem interpolate_returns : Eff.Returns (fun value => ∃ out, value = .string out)
    (interpolate h ctx text segments cursor out failed) := by
  induction segments generalizing cursor out failed with
  | nil =>
    cases failed with
    | none => exact Eff.returns_pure ⟨_,rfl⟩
    | some e => exact Eff.returns_throw e
  | cons segment rest ih =>
    apply Eff.returns_bind_any
    intro outcome
    cases outcome with
    | ok value => exact ih
    | error e => exact ih

theorem evaluate_text_returns (mixed : wholeExpression text = none) :
    Eff.Returns (fun value => ∃ out, value = .string out) (evaluate h ctx (.string text)) := by
  apply Eff.returns_bind_any
  intro _
  split
  · refine Eff.returns_bind_any fun s => Eff.returns_bind_any fun failed => ?_
    cases failed with
    | some message => exact Eff.returns_throw _
    | none =>
      simp only [evaluateWith,evaluateString,mixed]
      exact interpolate_returns
  · exact Eff.returns_pure ⟨text,rfl⟩

/-- The members a `return` evaluates are written in its step, unless its headers are one
expression. -/
theorem returnHeaderSource_returns {s : ReturnStep}
    (plain : (DslStep.returnStep s).wholeMapReturn = false) :
    Eff.Returns (fun found => ∀ members, found = some members → s.headers = some (.object members))
      (returnHeaderSource h ctx s.headers) := by
  unfold returnHeaderSource
  split
  · exact Eff.returns_pure (by simp)
  · rename_i members eq
    exact Eff.returns_pure (by simp [eq])
  · rename_i text eq
    have mixed : wholeExpression text = none := by
      simpa [DslStep.wholeMapReturn,eq] using plain
    refine Eff.returns_bind (evaluate_text_returns mixed) ?_
    rintro _ ⟨out,rfl⟩
    exact Eff.returns_throw _
  · exact Eff.returns_throw _

variable (frame : Frame I ok)
include frame

theorem executeAssign_keeps {s : AssignStep}
    (allowed : ∀ value ∈ (DslStep.assign s).values, ok value) :
    Eff.Keeps I (executeAssign h ctx s) := by
  simp only [DslStep.values,List.mem_map,forall_exists_index,and_imp] at allowed
  refine Eff.keeps_bind (Eff.keeps_collect fun entry member => ?_) fun _ => Eff.keeps_pure _
  apply Eff.keeps_bind (frame.evaluates (allowed _ entry member rfl))
  intro value
  exact frame.setVariable

theorem evaluateOption_keeps (allowed : ∀ value ∈ found.toList, ok value) :
    Eff.Keeps I (evaluateOption h ctx found) := by
  cases found with
  | none => exact Eff.keeps_pure none
  | some value => exact Eff.keeps_map (frame.evaluates (allowed value (by simp))) _

/-- A string argument is written in the DSL; the object it gives is not evaluated. -/
theorem evaluateMapArg_keeps (allowed : ∀ value ∈ argValues arg, ok value) :
    Eff.Keeps I (evaluateMapArg h ctx stepName argName arg) := by
  unfold evaluateMapArg
  split
  · exact Eff.keeps_pure none
  · rename_i members
    refine Eff.keeps_bind (Eff.keeps_collect fun member found => ?_) fun _ => Eff.keeps_pure _
    apply Eff.keeps_bind (frame.evaluates (allowed _ (List.mem_map_of_mem found)))
    intro value
    exact Eff.keeps_pure _
  · rename_i text
    apply Eff.keeps_bind (frame.evaluates (allowed _ List.mem_cons_self))
    intro value
    split
    · exact Eff.keeps_pure _
    · exact Eff.keeps_pure _
    · exact Eff.keeps_throw _
  · exact Eff.keeps_throw _

theorem returnHeaderSource_keeps (allowed : ∀ value ∈ argValues arg, ok value) :
    Eff.Keeps I (returnHeaderSource h ctx arg) := by
  unfold returnHeaderSource
  split
  · exact Eff.keeps_pure none
  · exact Eff.keeps_pure _
  · rename_i text
    apply Eff.keeps_bind (frame.evaluates (allowed _ List.mem_cons_self))
    intro value
    split
    · exact Eff.keeps_pure _
    · exact Eff.keeps_pure _
    · exact Eff.keeps_throw _
  · exact Eff.keeps_throw _

theorem renderHeaders_keeps
    (allowed : ∀ members, found = some members → ∀ member ∈ members, ok member.2) :
    Eff.Keeps I (renderHeaders h ctx found) := by
  cases found with
  | none => exact Eff.keeps_pure none
  | some members =>
    refine Eff.keeps_bind (Eff.keeps_collect fun member found => ?_) fun _ => Eff.keeps_pure _
    exact Eff.keeps_bind (frame.evaluates (allowed members rfl member found)) fun value => Eff.keeps_pure _

theorem executeReturn_keeps {s : ReturnStep}
    (allowed : ∀ value ∈ (DslStep.returnStep s).values, ok value)
    (either : (∀ value, ok value) ∨ (DslStep.returnStep s).wholeMapReturn = false) :
    Eff.Keeps I (executeReturn h ctx s) := by
  simp only [DslStep.values,List.cons_append,List.mem_cons,List.mem_append] at allowed
  have source : Eff.Keeps I (returnHeaderSource h ctx s.headers) :=
    returnHeaderSource_keeps frame fun value member => allowed value (.inr (.inr member))
  have written : Eff.Returns
      (fun found => ∀ members, found = some members → ∀ member ∈ members, ok member.2)
      (returnHeaderSource h ctx s.headers) := by
    rcases either with free | plain
    · exact fun _ _ _ _ _ _ member _ => free member.2
    · intro t found u eq members given member found_member
      have literal := returnHeaderSource_returns plain t found u eq members given
      refine allowed member.2 (.inr (.inr ?_))
      rw [literal]
      exact List.mem_map_of_mem found_member
  apply Eff.keeps_bind (frame.evaluates (allowed _ (.inl rfl)))
  intro value
  refine Eff.keeps_bind (evaluateOption_keeps frame fun value member =>
    allowed value (.inr (.inl member))) fun statusValue => ?_
  refine Eff.keeps_bind_returns source written fun found members => ?_
  exact Eff.keeps_bind (renderHeaders_keeps frame members) fun headers => Eff.keeps_pure _

theorem resolveArgs_keeps {args : HttpArgs} (allowed : ∀ value ∈ args.values, ok value) :
    Eff.Keeps I (resolveArgs h ctx stepName args) := by
  simp only [HttpArgs.values,List.cons_append,List.mem_cons,List.mem_append] at allowed
  apply Eff.keeps_bind (frame.evaluates (allowed _ (.inl rfl)))
  intro url
  refine Eff.keeps_bind (evaluateOption_keeps frame fun value member =>
    allowed value (.inr (.inl (.inl member)))) fun body => ?_
  refine Eff.keeps_bind (evaluateMapArg_keeps frame fun value member =>
    allowed value (.inr (.inl (.inr member)))) fun query => ?_
  refine Eff.keeps_bind (evaluateMapArg_keeps frame fun value member =>
    allowed value (.inr (.inr member))) fun headers => ?_
  exact Eff.keeps_pure _

theorem sendRequest_keeps : Eff.Keeps I (sendRequest h request) :=
  Eff.keeps_bind (frame.emits trivial) fun _ => frame.consult


theorem executeHttpMock_keeps {s : HttpMockStep}
    (allowed : ∀ value ∈ (DslStep.httpMock s).values, ok value) :
    Eff.Keeps I (executeHttpMock h ctx s) := by
  simp only [DslStep.values,List.mem_cons] at allowed
  apply Eff.keeps_bind (frame.evaluates (allowed _ (.inl rfl)))
  intro body
  split
  · exact Eff.keeps_pure _
  · refine Eff.keeps_bind (evaluateOption_keeps frame fun value member => allowed value (.inr member))
      fun request => ?_
    exact Eff.keeps_bind frame.setVariable fun _ => Eff.keeps_pure _

theorem executeSwitch_keeps {s : SwitchStep}
    (allowed : ∀ value ∈ (DslStep.switch s).values, ok value) :
    Eff.Keeps I (executeSwitch h ctx s) := by
  rw [DslStep.values] at allowed
  refine Eff.keeps_bind (Eff.keeps_firstM fun condition member => ?_) fun _ => Eff.keeps_pure _
  apply Eff.keeps_bind (frame.evaluates (allowed _ (List.mem_map_of_mem member)))
  intro value
  exact Eff.keeps_pure _

theorem executeLog_keeps {s : LogStep}
    (allowed : ∀ value ∈ (DslStep.log s).values, ok value) :
    Eff.Keeps I (executeLog h ctx s) := by
  simp only [DslStep.values,List.mem_singleton,forall_eq] at allowed
  exact Eff.keeps_bind (frame.evaluates allowed) fun _ => Eff.keeps_pure _


theorem evaluateKey_keeps (allowed : ok (.string key)) :
    Eff.Keeps I (evaluateKey h ctx key) :=
  Eff.keeps_bind (frame.evaluates allowed) fun _ => Eff.keeps_pure _

theorem executeState_keeps {s : StateStep}
    (allowed : ∀ value ∈ (DslStep.state s).values, ok value) :
    Eff.Keeps I (executeState h ctx s) := by
  rw [DslStep.values] at allowed
  refine Eff.keeps_bind ?_ fun _ => Eff.keeps_pure _
  cases operation : s.state with
  | get key into =>
    rw [operation] at allowed
    apply Eff.keeps_bind (evaluateKey_keeps frame (allowed _ List.mem_cons_self))
    intro key
    apply Eff.keeps_bind frame.interference
    intro _
    exact Eff.keeps_bind Eff.keeps_get fun now => frame.setVariable
  | set key value =>
    rw [operation] at allowed
    apply Eff.keeps_bind (evaluateKey_keeps frame (allowed _ List.mem_cons_self))
    intro key
    apply Eff.keeps_bind (frame.evaluates (allowed _ (by simp [StateOp.values])))
    intro value
    apply Eff.keeps_bind frame.interference
    intro _
    refine Eff.keeps_bind Eff.keeps_get fun now => ?_
    split
    · exact frame.modifyStore _
    · exact Eff.keeps_throw _
  | delete key =>
    rw [operation] at allowed
    apply Eff.keeps_bind (evaluateKey_keeps frame (allowed _ List.mem_cons_self))
    intro key
    exact Eff.keeps_bind frame.interference fun _ => frame.modifyStore _


theorem predicateMatches_keeps
    (allowed : ∀ expr, predicate.bind (·.bodyPredicate) = some expr → ok (.string expr)) :
    Eff.Keeps I (predicateMatches h ctx predicate response) := by
  unfold predicateMatches
  dsimp only
  split
  · exact Eff.keeps_pure false
  · split
    · exact Eff.keeps_pure true
    · rename_i expr found
      apply Eff.keeps_bind frame.setVariable
      intro _
      apply Eff.keeps_bind (Eff.keeps_attempt (frame.evaluates (allowed expr found)))
      intro outcome
      cases outcome with
      | ok value => exact Eff.keeps_pure _
      | error e => exact Eff.keeps_pure _

theorem collectFirstN_keeps
    (allowed : ∀ expr, predicate.bind (·.bodyPredicate) = some expr → ok (.string expr)) :
    Eff.Keeps I (collectFirstN h ctx predicate missing finished) := by
  induction finished generalizing missing with
  | nil =>
    cases missing with
    | zero => exact Eff.keeps_pure []
    | succ missing => exact Eff.keeps_pure []
  | cons p rest ih =>
    cases missing with
    | zero => exact Eff.keeps_pure []
    | succ missing =>
      unfold collectFirstN
      split
      · exact ih
      · apply Eff.keeps_bind (predicateMatches_keeps frame allowed)
        intro counted
        split
        · exact Eff.keeps_bind ih fun _ => Eff.keeps_pure _
        · exact ih

theorem aggregated_keeps {b : ParallelHttpBody}
    (allowed : ∀ expr, b.earlyExitOn.bind (·.bodyPredicate) = some expr → ok (.string expr)) :
    Eff.Keeps I (aggregated h ctx b finished) := by
  unfold aggregated
  split
  · exact Eff.keeps_pure _
  · exact Eff.keeps_pure _
  · exact collectFirstN_keeps frame allowed

theorem executeParallelHttp_keeps {s : ParallelHttpStep}
    (allowed : ∀ value ∈ (DslStep.parallelHttp s).values, ok value) :
    Eff.Keeps I (executeParallelHttp h ctx s) := by
  simp only [DslStep.values,List.cons_append,List.mem_cons,List.mem_append] at allowed
  have predicate : ∀ expr, s.parallelHttp.earlyExitOn.bind (·.bodyPredicate) = some expr →
      ok (.string expr) :=
    fun expr found => allowed _ (.inr (.inr (by simp [found])))
  apply Eff.keeps_bind (frame.evaluates (allowed _ (.inl rfl)))
  intro evaluated
  refine Eff.keeps_bind (keeps_ofExcept _) fun peers => ?_
  split
  · exact Eff.keeps_bind frame.setVariable fun _ => Eff.keeps_pure _
  · split
    · exact Eff.keeps_throw _
    · refine Eff.keeps_bind (Eff.keeps_collect fun peer _ => ?_) fun resolved => ?_
      · apply Eff.keeps_bind frame.setVariable
        intro _
        refine Eff.keeps_bind (resolveArgs_keeps frame fun value member =>
          allowed value (.inr (.inl member))) fun args => ?_
        exact Eff.keeps_pure _
      refine Eff.keeps_bind (Eff.keeps_collect fun _ _ => sendRequest_keeps frame) fun outcomes => ?_
      apply Eff.keeps_bind frame.consult
      intro order
      exact Eff.keeps_bind (aggregated_keeps frame predicate) fun collected =>
        Eff.keeps_bind frame.setVariable fun _ => Eff.keeps_pure _

theorem resolveWhereField_keeps (allowed : ok value) :
    Eff.Keeps I (resolveWhereField h ctx field value) := by
  apply Eff.keeps_bind (frame.evaluates allowed)
  intro evaluated
  dsimp only
  split
  · exact Eff.keeps_throw _
  · exact Eff.keeps_pure _

theorem resolveBroadcastWhere_keeps {bw : BroadcastWhere}
    (allowed : ∀ value ∈ bw.values, ok value) :
    Eff.Keeps I (resolveBroadcastWhere h ctx bw) := by
  simp only [BroadcastWhere.values,List.cons_append,List.mem_cons,List.mem_append] at allowed
  apply Eff.keeps_bind (resolveWhereField_keeps frame (allowed _ (.inl rfl)))
  intro tag
  split
  · exact Eff.keeps_throw _
  · rename_i value equals _
    exact Eff.keeps_bind (resolveWhereField_keeps frame (allowed value (.inr (.inl (by simp [equals])))))
      fun _ => Eff.keeps_pure _
  · rename_i value _ contains
    exact Eff.keeps_bind (resolveWhereField_keeps frame (allowed value (.inr (.inr (by simp [contains])))))
      fun _ => Eff.keeps_pure _
  · exact Eff.keeps_throw _

theorem sendTo_keeps : Eff.Keeps I (sendTo h target payload) := by
  refine Eff.keeps_bind (frame.emits trivial) fun _ => ?_
  exact Eff.keeps_bind frame.consult fun answer => keeps_ofExcept answer

theorem sendToTarget_keeps : Eff.Keeps I (sendToTarget h payload target) := by
  unfold sendToTarget
  split
  · exact Eff.keeps_throw _
  · exact sendTo_keeps frame
  · exact Eff.keeps_bind (Eff.keeps_collect fun _ _ => Eff.keeps_attempt (sendTo_keeps frame))
      fun _ => Eff.keeps_pure ()
  · exact Eff.keeps_throw _

theorem executeWsSend_keeps {s : WsSendStep}
    (allowed : ∀ value ∈ (DslStep.wsSend s).values, ok value) :
    Eff.Keeps I (executeWsSend h ctx s) := by
  simp only [DslStep.values,List.cons_append,List.mem_cons,List.mem_append] at allowed
  apply Eff.keeps_bind (frame.evaluates (allowed _ (.inl rfl)))
  intro payload
  split
  · rename_i bw _ found
    refine Eff.keeps_bind (resolveBroadcastWhere_keeps frame fun value member =>
      allowed value (.inr (.inl (by simpa [found] using member)))) fun resolved => ?_
    exact Eff.keeps_bind (frame.emits trivial) fun _ => Eff.keeps_pure _
  · exact Eff.keeps_bind (frame.emits trivial) fun _ => Eff.keeps_pure _
  · refine Eff.keeps_bind (evaluateOption_keeps frame fun value member =>
      allowed value (.inr (.inr member))) fun target => ?_
    exact Eff.keeps_bind (sendToTarget_keeps frame) fun _ => Eff.keeps_pure _

theorem executeWsTag_keeps {s : WsTagStep}
    (allowed : ∀ value ∈ (DslStep.wsTag s).values, ok value) :
    Eff.Keeps I (executeWsTag h ctx s) := by
  simp only [DslStep.values,List.mem_map,forall_exists_index,and_imp] at allowed
  unfold executeWsTag
  split
  · exact Eff.keeps_throw _
  · refine Eff.keeps_bind (Eff.keeps_collect fun entry member =>
      Eff.keeps_bind (frame.evaluates (allowed _ entry member rfl)) fun _ => Eff.keeps_pure _) fun tags => ?_
    refine Eff.keeps_bind (frame.emits trivial) fun _ => ?_
    apply Eff.keeps_bind frame.consult
    intro answer
    exact Eff.keeps_bind (keeps_ofExcept answer) fun _ => Eff.keeps_pure _

theorem bindReceived_keeps : Eff.Keeps I (bindReceived result value) := by
  cases value with
  | none => exact Eff.keeps_pure ()
  | some value => exact frame.bindResult

theorem executeLeaf_keeps {nested : Engine} {step : DslStep} (leaf : step.Leaf)
    (allowed : ∀ value ∈ step.values, ok value)
    (either : (∀ value, ok value) ∨ step.wholeMapReturn = false) :
    Eff.Keeps I (executeSingleStepImpl h nested step ctx) := by
  cases step with
  | assign s => exact executeAssign_keeps frame allowed
  | returnStep s => exact executeReturn_keeps frame allowed either
  | httpMock s => exact executeHttpMock_keeps frame allowed
  | switch s => exact executeSwitch_keeps frame allowed
  | log s => exact executeLog_keeps frame allowed
  | state s => exact executeState_keeps frame allowed
  | parallelHttp s => exact executeParallelHttp_keeps frame allowed
  | wsSend s => exact executeWsSend_keeps frame allowed
  | wsTag s => exact executeWsTag_keeps frame allowed
  | declaration s => exact Eff.keeps_pure _
  | http s => exact leaf.elim
  | template s => exact leaf.elim
  | iterate s => exact leaf.elim
  | detach s => exact leaf.elim
  | singleFlight s => exact leaf.elim

end Executors

section Loop
variable {dsl : Dsl}

theorem followNext_keeps : Eff.Keeps I (followNext dsl name index next) := by
  unfold followNext
  split
  · exact Eff.keeps_pure _
  · split
    · exact Eff.keeps_pure _
    · split
      · exact Eff.keeps_pure _
      · exact Eff.keeps_throw _

theorem sleepFor_keeps (frame : Frame I ok) : Eff.Keeps I (sleepFor wait) := by
  cases wait with
  | none => exact Eff.keeps_pure ()
  | some ms => exact frame.emits trivial

theorem triggerReload_keeps (frame : Frame I ok) : Eff.Keeps I (triggerReload fields) := by
  unfold triggerReload
  split
  · exact frame.emits trivial
  · exact Eff.keeps_pure ()

end Loop

/-- The events within a step: all but the entry of a DSL and the dispatch of a step. -/
def Event.WithinStep : Event → Prop
  | .entered _ | .dispatched _ => False
  | _ => True

/-- Evaluation breaks nothing that the events within a step do not break. -/
theorem free_frame (congr : Structural I)
    (emits : ∀ event : Event, event.WithinStep → Eff.Keeps I (emit event)) : Frame I fun _ => True where
  congr := congr
  emits := by
    intro event outward
    apply emits
    cases event with
    | entered dsl => exact outward
    | dispatched step => exact outward
    | _ => trivial
  evaluates := by
    intro value h ctx _
    refine evaluate_keeps congr (emits _ trivial) ?_
    intro text _ source _
    exact executeJs_keeps congr (emits _ trivial)

end Ruuter
