import Ruuter.Layers
import Ruuter.Lib.Lockstep
import Ruuter.SelfCall

/-! What a run can write. The variables it may bind are written in its steps; whatever it starts
in a context of its own, a template, a guard, a default exception DSL or a detached block, binds
none of the caller's. Its entries in the state store are those of its project. -/
namespace Ruuter

def StateOp.binds : StateOp → List String
  | .get _ into => [into]
  | .set _ _ | .delete _ => []

/-- A predicate on a peer's response sees the response as a variable. -/
def ParallelHttpBody.binds (b : ParallelHttpBody) : List String :=
  "peer" :: b.result :: (b.earlyExitOn.bind (·.bodyPredicate)).toList.map fun _ => "response"

mutual

/-- The variables a step may bind in the context it runs in. -/
@[simp] def DslStep.binds : DslStep → List String
  | .assign s => s.assign.keys
  | .http s => s.result.toList
  | .httpMock s => s.result.toList
  | .template s => s.result.toList
  | .state s => s.state.binds
  | .iterate ⟨⟨_,itemVar,body,_,into,_⟩,_,_⟩ => itemVar :: (into.toList ++ bodyBinds body)
  | .parallelHttp s => s.parallelHttp.binds
  | .singleFlight ⟨⟨_,_,body,result⟩,_,_⟩ => result.toList ++ bodyBinds body
  | .returnStep _ | .switch _ | .log _ | .detach _ | .wsSend _ | .wsTag _ | .declaration _ => []

def bodyBinds : List DslStep → List String
  | [] => []
  | step :: rest => step.binds ++ bodyBinds rest

end

def Dsl.binds (dsl : Dsl) : List String := dsl.steps.entries.flatMap (·.2.binds)

theorem binds_of_body {steps : List DslStep} (member : step ∈ steps) (bound : name ∈ step.binds) :
    name ∈ bodyBinds steps := by
  induction steps with
  | nil => cases member
  | cons head rest ih =>
    rw [bodyBinds,List.mem_append]
    rcases List.mem_cons.mp member with rfl | later
    · exact .inl bound
    · exact .inr (ih later)

theorem Dsl.binds_of_step {dsl : Dsl} (held : dsl.getStep key = some step) (bound : name ∈ step.binds) :
    name ∈ dsl.binds :=
  List.mem_flatMap.mpr ⟨⟨key,step⟩,AList.mem_lookup_iff.mp held,bound⟩

/-- A `state.set` that has its key and its value. -/
def storeSet (project key : String) (value : Json) : M Unit := do
  let now ← Eff.get
  match now.store.set project key value with
  | .ok store => Eff.modify fun s => { s with store }
  | .error message => Eff.throw (.invalidStep message)

/-- A relation between the states of two runs that differ in their stores at most. It survives
the binding of certain names, and the writes of certain projects and of other requests. -/
structure Confined (h : Host) (R : St → St → Prop) (names projects : String → Prop) : Prop where
  vars : ∀ {s t}, R s t → s.vars = t.vars
  stack : ∀ {s t}, R s t → s.guardStack = t.guardStack
  clock : ∀ {s t}, R s t → s.clock = t.clock
  moves : ∀ {s t} guardStack events clock, R s t →
    R { s with guardStack, trace := s.trace ++ events, clock } { t with guardStack, trace := t.trace ++ events, clock }
  binds : ∀ {s t name} value, names name → R s t →
    R { s with vars := s.vars.insert name value } { t with vars := t.vars.insert name value }
  reads : ∀ {s t project} key, projects project → R s t → s.store.get project key = t.store.get project key
  sets : ∀ {project} key value, projects project → Eff.Lockstep R (storeSet project key value)
  deletes : ∀ {s t project} key, projects project → R s t →
    R { s with store := s.store.delete project key } { t with store := t.store.delete project key }
  interferes : ∀ {s t} now, R s t →
    R { s with store := h.interfere now s.store } { t with store := h.interfere now t.store }
  handles : ∀ cfg, h.defaultExceptionDsl = some cfg → projects cfg.project

/-- What the executors rely on in the engine they are given. -/
structure Contained (h : Host) (projects : String → Prop) (engine : Engine) : Prop where
  run : ∀ {R names dsl ctx}, Confined h R names projects → (∀ name ∈ Dsl.binds dsl, names name) →
    projects (Ctx.project ctx) → Eff.Lockstep R (engine.run dsl ctx)
  step : ∀ {R names step ctx}, Confined h R names projects →
    (∀ name ∈ DslStep.binds step, names name) → projects (Ctx.project ctx) → Eff.Lockstep R (engine.step step ctx)

section Generic
variable {R : St → St → Prop}

theorem lockstep_ofExcept (outcome : Except RuuterError α) : Eff.Lockstep R (ofExcept outcome) := by
  cases outcome with
  | ok a => exact Eff.lockstep_pure a
  | error e => exact Eff.lockstep_throw e

theorem lockstep_raise (refusal : Refusal) : Eff.Lockstep R refusal.raise := by
  cases refusal with
  | contract e => exact Eff.lockstep_throw e
  | stack e => exact Eff.lockstep_throw e
  | failed e => exact Eff.lockstep_throw e
  | denied result => exact Eff.lockstep_pure result

theorem lockstep_guarded {loop : M (Option Refusal)} {target : M α} (first : Eff.Lockstep R loop)
    (refused : ∀ refusal, Eff.Lockstep R (refuse refusal)) (later : Eff.Lockstep R target) :
    Eff.Lockstep R (guarded loop refuse target) := by
  apply Eff.lockstep_bind first
  intro found
  cases found with
  | some refusal => exact refused refusal
  | none => exact later

section Scripts
variable {h : Host} {ctx : Ctx}

theorem lockstep_interpolate (scripts : ∀ source, Eff.Lockstep R (executeJs h ctx source)) :
    Eff.Lockstep R (interpolate h ctx text segments cursor out failed) := by
  induction segments generalizing cursor out failed with
  | nil =>
    cases failed with
    | none => exact Eff.lockstep_pure _
    | some e => exact Eff.lockstep_throw e
  | cons segment rest ih =>
    refine Eff.lockstep_bind (Eff.lockstep_attempt (scripts _)) fun outcome => ?_
    cases outcome with
    | ok value => exact ih
    | error e => exact ih

theorem lockstep_evaluateString (scripts : ∀ source, Eff.Lockstep R (executeJs h ctx source)) :
    Eff.Lockstep R (evaluateString h ctx text) := by
  unfold evaluateString
  split
  · exact Eff.lockstep_bind (scripts _) fun value => Eff.lockstep_pure _
  · exact lockstep_interpolate scripts

mutual

theorem lockstep_evaluateWith (scripts : ∀ source, Eff.Lockstep R (executeJs h ctx source)) :
    (value : Json) → Eff.Lockstep R (evaluateWith h ctx value)
  | .null => by
    rw [evaluateWith]
    exact Eff.lockstep_pure _
  | .bool b => by
    rw [evaluateWith]
    exact Eff.lockstep_pure _
  | .number n => by
    rw [evaluateWith]
    exact Eff.lockstep_pure _
  | .string text => by
    rw [evaluateWith]
    exact lockstep_evaluateString scripts
  | .array items => by
    rw [evaluateWith]
    exact Eff.lockstep_bind (lockstep_evaluateItems scripts items) fun _ => Eff.lockstep_pure _
  | .object members => by
    rw [evaluateWith]
    exact Eff.lockstep_bind (lockstep_evaluateMembers scripts members) fun _ => Eff.lockstep_pure _

theorem lockstep_evaluateItems (scripts : ∀ source, Eff.Lockstep R (executeJs h ctx source)) :
    (items : List Json) → Eff.Lockstep R (evaluateItems h ctx items)
  | [] => by
    rw [evaluateItems]
    exact Eff.lockstep_pure _
  | item :: rest => by
    rw [evaluateItems]
    refine Eff.lockstep_bind (lockstep_evaluateWith scripts item) fun _ => ?_
    exact Eff.lockstep_bind (lockstep_evaluateItems scripts rest) fun _ => Eff.lockstep_pure _

theorem lockstep_evaluateMembers (scripts : ∀ source, Eff.Lockstep R (executeJs h ctx source)) :
    (members : List (String × Json)) → Eff.Lockstep R (evaluateMembers h ctx members)
  | [] => by
    rw [evaluateMembers]
    exact Eff.lockstep_pure _
  | (key,value) :: rest => by
    rw [evaluateMembers]
    refine Eff.lockstep_bind (lockstep_evaluateWith scripts value) fun _ => ?_
    exact Eff.lockstep_bind (lockstep_evaluateMembers scripts rest) fun _ => Eff.lockstep_pure _

end

end Scripts

variable {execute : DslStep → Ctx → M StepResult} {dsl : Dsl} {ctx : Ctx} {h : Host}

theorem lockstep_perform (kept : Eff.Lockstep R (execute step ctx)) :
    Eff.Lockstep R (perform execute ctx name step) := by
  unfold perform
  split
  · exact Eff.lockstep_pure _
  · exact Eff.lockstep_mapError kept

theorem lockstep_followNext : Eff.Lockstep R (followNext dsl name index next) := by
  unfold followNext
  split
  · exact Eff.lockstep_pure _
  · split
    · exact Eff.lockstep_pure _
    · split
      · exact Eff.lockstep_pure _
      · exact Eff.lockstep_throw _

theorem lockstep_runLoop (kept : ∀ name step index, dsl.getStep name = some step →
      Eff.Lockstep R (takeStep execute dsl ctx name step index)) :
    Eff.Lockstep R (runLoop h execute dsl ctx budget index recursions) := by
  induction budget generalizing index recursions with
  | zero => exact Eff.lockstep_pure _
  | succ budget ih =>
    unfold runLoop
    split
    · exact Eff.lockstep_pure _
    · split
      · exact Eff.lockstep_throw _
      · rename_i step found
        dsimp only
        split
        · exact ih
        · apply Eff.lockstep_bind (kept _ step _ found)
          intro move
          cases move with
          | goto next => exact ih
          | stop ended => exact Eff.lockstep_pure ended

end Generic

namespace Confined
variable {h : Host} {R : St → St → Prop} {names projects : String → Prop} {ctx : Ctx} {engine : Engine}

theorem hidden_set (s : St) (vars : StringMap Json) :
    storeSet project key value { s with vars } =
      ((storeSet project key value s).1,{ (storeSet project key value s).2 with vars }) := by
  unfold storeSet
  rw [Eff.bind_eq_ok (Eff.get_eq s),Eff.bind_eq_ok (Eff.get_eq _)]
  cases s.store.set project key value <;> rfl

theorem storeSet_vars (s : St) : (storeSet project key value s).2.vars = s.vars := by
  unfold storeSet
  rw [Eff.bind_eq_ok (Eff.get_eq s)]
  cases s.store.set project key value <;> rfl

/-- In a context of its own a run may bind every name. -/
theorem hide (confined : Confined h R names projects) (vars : StringMap Json) :
    Confined h (fun s t => s.vars = t.vars ∧ R { s with vars } { t with vars }) (fun _ => True) projects where
  vars related := related.1
  stack related := (confined.stack related.2 :)
  clock related := (confined.clock related.2 :)
  moves stack events clock related := ⟨related.1,confined.moves stack events clock related.2⟩
  binds value _ related := ⟨congrArg (AList.insert _ value) related.1,related.2⟩
  reads key own related := (confined.reads key own related.2 :)
  sets := by
    intro project key value own s t related
    have after := confined.sets key value own _ _ related.2
    rw [hidden_set s vars,hidden_set t vars] at after
    exact ⟨after.1,by rw [storeSet_vars,storeSet_vars,related.1],after.2⟩
  deletes key own related := ⟨related.1,confined.deletes key own related.2⟩
  interferes now related := ⟨related.1,confined.interferes now related.2⟩
  handles := confined.handles

section Executors
variable (confined : Confined h R names projects)
include confined

/-- The parts of the state that neither hold variables nor entries. -/
theorem change (related : R s t) (guardStack : List String) (events : List Event) (later : Nat) :
    R { s with guardStack, trace := s.trace ++ events, clock := s.clock + later }
      { t with guardStack, trace := t.trace ++ events, clock := t.clock + later } := by
  rw [← confined.clock related]
  exact confined.moves _ _ _ related

theorem emit : Eff.Lockstep R (Ruuter.emit event) := by
  refine Eff.lockstep_modify fun s t related => ?_
  have changed := confined.change related s.guardStack [event] 0
  nth_rewrite 2 [confined.stack related] at changed
  exact changed

theorem consult : Eff.Lockstep R (Ruuter.consult answer) := by
  intro s t related
  have changed := confined.change related s.guardStack [] 1
  nth_rewrite 2 [confined.stack related] at changed
  simp only [List.append_nil] at changed
  exact ⟨congrArg (fun now => Except.ok (answer now)) (confined.clock related),changed⟩

theorem setVariable (bound : names name) : Eff.Lockstep R (Ruuter.setVariable name value) :=
  Eff.lockstep_modify fun _ _ related => confined.binds value bound related

theorem bindResult (bound : ∀ name ∈ result.toList, names name) : Eff.Lockstep R (Ruuter.bindResult result value) := by
  cases result with
  | none => exact Eff.lockstep_pure ()
  | some name => exact confined.setVariable (bound name (by simp))

theorem interference : Eff.Lockstep R (Ruuter.interference h) := by
  have interfered : Eff.Lockstep R (Ruuter.consult fun now => now) := confined.consult
  intro s t related
  obtain ⟨same,later⟩ := interfered s t related
  have clock := confined.clock related
  refine ⟨rfl,?_⟩
  have changed := confined.interferes s.clock later
  nth_rewrite 2 [clock] at changed
  exact changed

theorem executeJs : Eff.Lockstep R (Ruuter.executeJs h ctx source) := by
  apply Eff.lockstep_bind confined.emit
  intro _
  refine Eff.lockstep_get (fun s t related => by rw [confined.vars related]) fun s => ?_
  apply Eff.lockstep_bind confined.consult
  intro answer
  cases answer with
  | ok value => exact Eff.lockstep_pure value
  | error message => exact Eff.lockstep_throw _

theorem evaluate : Eff.Lockstep R (Ruuter.evaluate h ctx value) := by
  apply Eff.lockstep_bind confined.emit
  intro _
  split
  · refine Eff.lockstep_get (fun s t related => by rw [confined.vars related]) fun s => ?_
    apply Eff.lockstep_bind confined.consult
    intro failed
    cases failed with
    | some message => exact Eff.lockstep_throw _
    | none => exact lockstep_evaluateWith (fun _ => confined.executeJs) value
  · exact Eff.lockstep_pure value

theorem evaluateOption : Eff.Lockstep R (Ruuter.evaluateOption h ctx found) := by
  cases found with
  | none => exact Eff.lockstep_pure none
  | some value => exact Eff.lockstep_map confined.evaluate _

theorem evaluateKey : Eff.Lockstep R (Ruuter.evaluateKey h ctx key) :=
  Eff.lockstep_bind confined.evaluate fun _ => Eff.lockstep_pure _

theorem evaluateMapArg : Eff.Lockstep R (Ruuter.evaluateMapArg h ctx stepName argName arg) := by
  unfold Ruuter.evaluateMapArg
  split
  · exact Eff.lockstep_pure none
  · refine Eff.lockstep_bind (Eff.lockstep_collect fun member _ => ?_) fun _ => Eff.lockstep_pure _
    exact Eff.lockstep_bind confined.evaluate fun _ => Eff.lockstep_pure _
  · apply Eff.lockstep_bind confined.evaluate
    intro value
    split
    · exact Eff.lockstep_pure _
    · exact Eff.lockstep_pure _
    · exact Eff.lockstep_throw _
  · exact Eff.lockstep_throw _

theorem resolveArgs : Eff.Lockstep R (Ruuter.resolveArgs h ctx stepName args) := by
  apply Eff.lockstep_bind confined.evaluate
  intro url
  apply Eff.lockstep_bind confined.evaluateOption
  intro body
  apply Eff.lockstep_bind confined.evaluateMapArg
  intro query
  exact Eff.lockstep_bind confined.evaluateMapArg fun headers => Eff.lockstep_pure _

theorem sendRequest : Eff.Lockstep R (Ruuter.sendRequest h request) :=
  Eff.lockstep_bind confined.emit fun _ => confined.consult

theorem executeAssign {s : AssignStep} (bound : ∀ name ∈ (DslStep.assign s).binds, names name) :
    Eff.Lockstep R (Ruuter.executeAssign h ctx s) := by
  refine Eff.lockstep_bind (Eff.lockstep_collect fun entry member => ?_) fun _ => Eff.lockstep_pure _
  apply Eff.lockstep_bind confined.evaluate
  intro value
  refine confined.setVariable (bound entry.1 ?_)
  rw [DslStep.binds]
  exact List.mem_map_of_mem member

theorem returnHeaderSource : Eff.Lockstep R (Ruuter.returnHeaderSource h ctx arg) := by
  unfold Ruuter.returnHeaderSource
  split
  · exact Eff.lockstep_pure none
  · exact Eff.lockstep_pure _
  · apply Eff.lockstep_bind confined.evaluate
    intro value
    split
    · exact Eff.lockstep_pure _
    · exact Eff.lockstep_pure _
    · exact Eff.lockstep_throw _
  · exact Eff.lockstep_throw _

theorem renderHeaders : Eff.Lockstep R (Ruuter.renderHeaders h ctx found) := by
  cases found with
  | none => exact Eff.lockstep_pure none
  | some members =>
    refine Eff.lockstep_bind (Eff.lockstep_collect fun member _ => ?_) fun _ => Eff.lockstep_pure _
    exact Eff.lockstep_bind confined.evaluate fun value => Eff.lockstep_pure _

theorem executeReturn : Eff.Lockstep R (Ruuter.executeReturn h ctx s) := by
  apply Eff.lockstep_bind confined.evaluate
  intro value
  apply Eff.lockstep_bind confined.evaluateOption
  intro statusValue
  apply Eff.lockstep_bind confined.returnHeaderSource
  intro source
  exact Eff.lockstep_bind confined.renderHeaders fun headers => Eff.lockstep_pure _

theorem executeHttpMock {s : HttpMockStep} (bound : ∀ name ∈ (DslStep.httpMock s).binds, names name) :
    Eff.Lockstep R (Ruuter.executeHttpMock h ctx s) := by
  rw [DslStep.binds] at bound
  apply Eff.lockstep_bind confined.evaluate
  intro body
  split
  · exact Eff.lockstep_pure _
  · rename_i name given
    apply Eff.lockstep_bind confined.evaluateOption
    intro request
    exact Eff.lockstep_bind (confined.setVariable (bound name (by simp [given]))) fun _ => Eff.lockstep_pure _

theorem executeSwitch : Eff.Lockstep R (Ruuter.executeSwitch h ctx s) := by
  refine Eff.lockstep_bind (Eff.lockstep_firstM fun condition _ => ?_) fun _ => Eff.lockstep_pure _
  exact Eff.lockstep_bind confined.evaluate fun value => Eff.lockstep_pure _

theorem executeLog : Eff.Lockstep R (Ruuter.executeLog h ctx s) :=
  Eff.lockstep_bind confined.evaluate fun _ => Eff.lockstep_pure _

theorem executeState {s : StateStep} (bound : ∀ name ∈ (DslStep.state s).binds, names name)
    (own : projects ctx.project) : Eff.Lockstep R (Ruuter.executeState h ctx s) := by
  rw [DslStep.binds] at bound
  refine Eff.lockstep_bind ?_ fun _ => Eff.lockstep_pure _
  cases operation : s.state with
  | get key into =>
    apply Eff.lockstep_bind confined.evaluateKey
    intro key
    apply Eff.lockstep_bind confined.interference
    intro _
    refine Eff.lockstep_get (fun s t related => by rw [confined.reads key own related]) fun now => ?_
    refine confined.setVariable (bound into ?_)
    rw [operation]
    exact List.mem_singleton_self into
  | set key value =>
    apply Eff.lockstep_bind confined.evaluateKey
    intro key
    apply Eff.lockstep_bind confined.evaluate
    intro value
    apply Eff.lockstep_bind confined.interference
    intro _
    exact confined.sets key value own
  | delete key =>
    apply Eff.lockstep_bind confined.evaluateKey
    intro key
    refine Eff.lockstep_bind confined.interference fun _ => ?_
    exact Eff.lockstep_modify fun _ _ related => confined.deletes key own related

theorem predicateMatches (bound : ∀ expr, predicate.bind (·.bodyPredicate) = some expr → names "response") :
    Eff.Lockstep R (Ruuter.predicateMatches h ctx predicate response) := by
  unfold Ruuter.predicateMatches
  dsimp only
  split
  · exact Eff.lockstep_pure false
  · split
    · exact Eff.lockstep_pure true
    · rename_i expr found
      apply Eff.lockstep_bind (confined.setVariable (bound expr found))
      intro _
      apply Eff.lockstep_bind (Eff.lockstep_attempt confined.evaluate)
      intro outcome
      cases outcome with
      | ok value => exact Eff.lockstep_pure _
      | error e => exact Eff.lockstep_pure _

theorem collectFirstN (bound : ∀ expr, predicate.bind (·.bodyPredicate) = some expr → names "response") :
    Eff.Lockstep R (Ruuter.collectFirstN h ctx predicate missing finished) := by
  induction finished generalizing missing with
  | nil =>
    cases missing with
    | zero => exact Eff.lockstep_pure []
    | succ missing => exact Eff.lockstep_pure []
  | cons p rest ih =>
    cases missing with
    | zero => exact Eff.lockstep_pure []
    | succ missing =>
      unfold Ruuter.collectFirstN
      split
      · exact ih
      · apply Eff.lockstep_bind (confined.predicateMatches bound)
        intro counted
        split
        · exact Eff.lockstep_bind ih fun _ => Eff.lockstep_pure _
        · exact ih

theorem executeParallelHttpWith {sendAll : List Outbound → M (List (Except RuuterError HttpResponse))}
    {s : ParallelHttpStep} (sent : ∀ requests, Eff.Lockstep R (sendAll requests))
    (bound : ∀ name ∈ (DslStep.parallelHttp s).binds, names name) :
    Eff.Lockstep R (Ruuter.executeParallelHttpWith h ctx sendAll s) := by
  simp only [DslStep.binds,ParallelHttpBody.binds,List.mem_cons] at bound
  have peer : names "peer" := bound _ (.inl rfl)
  have result : names s.parallelHttp.result := bound _ (.inr (.inl rfl))
  have predicate : ∀ expr, s.parallelHttp.earlyExitOn.bind (·.bodyPredicate) = some expr → names "response" :=
    fun expr found => bound _ (.inr (.inr (by simp [found])))
  apply Eff.lockstep_bind confined.evaluate
  intro evaluated
  refine Eff.lockstep_bind (lockstep_ofExcept _) fun peers => ?_
  split
  · exact Eff.lockstep_bind (confined.setVariable result) fun _ => Eff.lockstep_pure _
  · split
    · exact Eff.lockstep_throw _
    · refine Eff.lockstep_bind (Eff.lockstep_collect fun item _ => ?_) fun resolved => ?_
      · apply Eff.lockstep_bind (confined.setVariable peer)
        intro _
        exact Eff.lockstep_bind confined.resolveArgs fun args => Eff.lockstep_pure _
      refine Eff.lockstep_bind (sent _) fun outcomes => ?_
      apply Eff.lockstep_bind confined.consult
      intro order
      refine Eff.lockstep_bind ?_ fun collected =>
        Eff.lockstep_bind (confined.setVariable result) fun _ => Eff.lockstep_pure _
      unfold aggregated
      split
      · exact Eff.lockstep_pure _
      · exact Eff.lockstep_pure _
      · exact confined.collectFirstN predicate

theorem executeParallelHttp {s : ParallelHttpStep} (bound : ∀ name ∈ (DslStep.parallelHttp s).binds, names name) :
    Eff.Lockstep R (Ruuter.executeParallelHttp h ctx s) :=
  confined.executeParallelHttpWith (fun _ => Eff.lockstep_collect fun _ _ => confined.sendRequest) bound

theorem resolveWhereField : Eff.Lockstep R (Ruuter.resolveWhereField h ctx field value) := by
  apply Eff.lockstep_bind confined.evaluate
  intro evaluated
  dsimp only
  split
  · exact Eff.lockstep_throw _
  · exact Eff.lockstep_pure _

theorem resolveBroadcastWhere : Eff.Lockstep R (Ruuter.resolveBroadcastWhere h ctx bw) := by
  apply Eff.lockstep_bind confined.resolveWhereField
  intro tag
  split
  · exact Eff.lockstep_throw _
  · exact Eff.lockstep_bind confined.resolveWhereField fun _ => Eff.lockstep_pure _
  · exact Eff.lockstep_bind confined.resolveWhereField fun _ => Eff.lockstep_pure _
  · exact Eff.lockstep_throw _

theorem sendTo : Eff.Lockstep R (Ruuter.sendTo h target payload) := by
  refine Eff.lockstep_bind confined.emit fun _ => ?_
  exact Eff.lockstep_bind confined.consult fun answer => lockstep_ofExcept answer

theorem sendToTarget : Eff.Lockstep R (Ruuter.sendToTarget h payload target) := by
  unfold Ruuter.sendToTarget
  split
  · exact Eff.lockstep_throw _
  · exact confined.sendTo
  · exact Eff.lockstep_bind (Eff.lockstep_collect fun _ _ => Eff.lockstep_attempt confined.sendTo)
      fun _ => Eff.lockstep_pure ()
  · exact Eff.lockstep_throw _

theorem executeWsSend : Eff.Lockstep R (Ruuter.executeWsSend h ctx s) := by
  apply Eff.lockstep_bind confined.evaluate
  intro payload
  split
  · apply Eff.lockstep_bind confined.resolveBroadcastWhere
    intro resolved
    exact Eff.lockstep_bind confined.emit fun _ => Eff.lockstep_pure _
  · exact Eff.lockstep_bind confined.emit fun _ => Eff.lockstep_pure _
  · apply Eff.lockstep_bind confined.evaluateOption
    intro target
    exact Eff.lockstep_bind confined.sendToTarget fun _ => Eff.lockstep_pure _

theorem executeWsTag : Eff.Lockstep R (Ruuter.executeWsTag h ctx s) := by
  unfold Ruuter.executeWsTag
  split
  · exact Eff.lockstep_throw _
  · refine Eff.lockstep_bind (Eff.lockstep_collect fun entry _ =>
      Eff.lockstep_bind confined.evaluate fun _ => Eff.lockstep_pure _) fun tags => ?_
    apply Eff.lockstep_bind confined.emit
    intro _
    apply Eff.lockstep_bind confined.consult
    intro answer
    exact Eff.lockstep_bind (lockstep_ofExcept answer) fun _ => Eff.lockstep_pure _

section Contexts

/-- A child context has variables of its own and gives the parent its own back. -/
theorem inChild (kept : ∀ vars, Eff.Lockstep (fun s t => s.vars = t.vars ∧ R { s with vars } { t with vars }) m) :
    Eff.Lockstep R (Ruuter.inChild m) := by
  refine Eff.lockstep_bracket
    (J := fun s _ u v => u.vars = v.vars ∧ R { u with vars := s.vars } { v with vars := s.vars }) ?_ ?_ ?_
  · intro s t related
    refine ⟨rfl,?_⟩
    have same := related
    nth_rewrite 2 [confined.vars related]
    exact related
  · intro s _ _
    exact kept s.vars
  · intro s t u v related after
    rw [← confined.vars related]
    exact after.2

theorem isolated (kept : ∀ vars, Eff.Lockstep (fun s t => s.vars = t.vars ∧ R { s with vars } { t with vars }) m) :
    Eff.Lockstep R (Ruuter.isolated own m) := by
  refine Eff.lockstep_bracket
    (J := fun s _ u v => u.vars = v.vars ∧ R { u with vars := s.vars } { v with vars := s.vars }) ?_ ?_ ?_
  · intro s t related
    refine ⟨rfl,?_⟩
    have changed := confined.change related [] [] 0
    nth_rewrite 2 [confined.vars related]
    simpa using changed
  · intro s _ _
    exact kept s.vars
  · intro s t u v related after
    rw [← confined.vars related,← confined.stack related]
    simpa using confined.change after.2 s.guardStack [] 0

theorem inFrame (kept : Eff.Lockstep R m) : Eff.Lockstep R (Ruuter.inFrame key m) := by
  refine Eff.lockstep_bracket (J := fun _ _ => R) ?_ ?_ ?_
  · intro s t related
    rw [← confined.stack related]
    simpa using confined.change related (s.guardStack ++ [key]) [] 0
  · intro _ _ _
    exact kept
  · intro _ _ u v _ after
    rw [← confined.stack after]
    simpa using confined.change after u.guardStack.dropLast [] 0

theorem checkGuard : Eff.Lockstep R (Ruuter.checkGuard key) := by
  intro s t related
  rw [checkGuard_state,checkGuard_state]
  refine ⟨?_,related⟩
  unfold Ruuter.checkGuard isGuardOnStack
  rw [confined.stack related]
  split
  · rfl
  · split <;> rfl

theorem guardLoop {run : Runner} (kept : ∀ dsl, Eff.Lockstep R (run dsl ctx)) :
    Eff.Lockstep R (Ruuter.guardLoop run ctx skip contract chain) := by
  refine Eff.lockstep_firstM fun entry _ => ?_
  have onStack : ∀ s t, R s t → isGuardOnStack s entry.1 = isGuardOnStack t entry.1 := by
    intro s t related
    rw [isGuardOnStack,confined.stack related,isGuardOnStack]
  refine Eff.lockstep_get (fun s t related => by rw [onStack s t related]) fun s => ?_
  split
  · exact Eff.lockstep_pure none
  · split
    · exact Eff.lockstep_pure _
    · refine Eff.lockstep_bind (Eff.lockstep_attempt confined.checkGuard) fun checked => ?_
      cases checked with
      | error e => exact Eff.lockstep_pure _
      | ok =>
        apply Eff.lockstep_bind (Eff.lockstep_attempt (confined.inFrame (kept _)))
        intro outcome
        cases outcome with
        | error e => exact Eff.lockstep_pure _
        | ok result => exact Eff.lockstep_pure _

end Contexts

section Nested
variable (contained : Contained h projects engine)
include contained

theorem invokeDefaultExceptionDsl (configured : h.defaultExceptionDsl = some cfg) :
    Eff.Lockstep R (Ruuter.invokeDefaultExceptionDsl h engine ctx cfg status body failedRequestId) := by
  apply Eff.lockstep_bind confined.consult
  intro loaded
  cases loaded with
  | none => exact Eff.lockstep_throw _
  | some dsls =>
    dsimp only
    split
    · exact Eff.lockstep_throw _
    · refine confined.isolated fun vars => ?_
      exact contained.run (confined.hide vars) (fun _ _ => trivial) (confined.handles cfg configured)

theorem reportFailure : Eff.Lockstep R (Ruuter.reportFailure h engine ctx response) := by
  unfold Ruuter.reportFailure
  split
  · exact Eff.lockstep_pure ()
  · rename_i cfg configured
    exact Eff.lockstep_bind (Eff.lockstep_attempt (confined.invokeDefaultExceptionDsl contained configured))
      fun _ => Eff.lockstep_pure ()

theorem executeHttpWith {send : Outbound → M (Except RuuterError HttpResponse)} {s : HttpStep}
    (sent : ∀ request, Eff.Lockstep R (send request)) (bound : ∀ name ∈ (DslStep.http s).binds, names name) :
    Eff.Lockstep R (Ruuter.executeHttpWith h engine ctx send s) := by
  rw [DslStep.binds] at bound
  unfold Ruuter.executeHttpWith
  split
  · exact Eff.lockstep_throw _
  · apply Eff.lockstep_bind confined.resolveArgs
    intro args
    refine Eff.lockstep_bind (sent _) fun outcome => ?_
    refine Eff.lockstep_bind (lockstep_ofExcept outcome) fun response => ?_
    apply Eff.lockstep_bind (confined.bindResult bound)
    intro _
    split
    · exact Eff.lockstep_pure _
    · split
      · exact Eff.lockstep_pure _
      · split
        · exact Eff.lockstep_pure _
        · exact Eff.lockstep_bind (confined.reportFailure contained) fun _ => Eff.lockstep_throw _

theorem executeHttp {s : HttpStep} (bound : ∀ name ∈ (DslStep.http s).binds, names name) :
    Eff.Lockstep R (Ruuter.executeHttp h engine ctx s) :=
  confined.executeHttpWith contained (fun _ => confined.sendRequest) bound

theorem executeTemplate {s : TemplateStep} (bound : ∀ name ∈ (DslStep.template s).binds, names name)
    (own : projects ctx.project) : Eff.Lockstep R (Ruuter.executeTemplate h engine ctx s) := by
  rw [DslStep.binds] at bound
  apply Eff.lockstep_bind confined.consult
  intro loaded
  cases loaded with
  | none => exact Eff.lockstep_throw _
  | some dsls =>
    dsimp only
    split
    · exact Eff.lockstep_throw _
    · apply Eff.lockstep_bind confined.evaluateMapArg
      intro body
      apply Eff.lockstep_bind confined.evaluateMapArg
      intro query
      apply Eff.lockstep_bind confined.evaluateMapArg
      intro headers
      apply Eff.lockstep_bind confined.consult
      intro chain
      refine Eff.lockstep_bind (confined.inChild fun vars => lockstep_guarded ?_ lockstep_raise ?_) fun result => ?_
      · exact (confined.hide vars).guardLoop fun dsl =>
          contained.run (confined.hide vars) (fun _ _ => trivial) own
      · exact contained.run (confined.hide vars) (fun _ _ => trivial) own
      · exact Eff.lockstep_bind (confined.bindResult bound) fun _ => Eff.lockstep_pure _

theorem runBody {steps : List DslStep} (bound : ∀ name ∈ bodyBinds steps, names name)
    (own : projects ctx.project) : Eff.Lockstep R (Ruuter.runBody engine ctx steps) := by
  refine Eff.lockstep_firstM fun step member => ?_
  refine Eff.lockstep_bind (contained.step confined (fun name held => ?_) own) fun _ => Eff.lockstep_pure _
  exact bound name (binds_of_body member held)

theorem iterateItems {b : IterateBody DslStep} (item : names b.itemVar)
    (bound : ∀ name ∈ bodyBinds b.body, names name) (own : projects ctx.project) :
    Eff.Lockstep R (Ruuter.iterateItems h engine ctx b items) := by
  induction items with
  | nil => exact Eff.lockstep_pure _
  | cons head rest ih =>
    apply Eff.lockstep_bind (confined.setVariable item)
    intro _
    apply Eff.lockstep_bind (confined.runBody contained bound own)
    intro early
    cases early with
    | some result => exact Eff.lockstep_pure _
    | none =>
      apply Eff.lockstep_bind confined.evaluateOption
      intro value
      apply Eff.lockstep_bind ih
      intro later
      cases later with
      | inl early => exact Eff.lockstep_pure _
      | inr later => exact Eff.lockstep_pure _

theorem executeIterate {s : IterateStep DslStep} (bound : ∀ name ∈ (DslStep.iterate s).binds, names name)
    (own : projects ctx.project) : Eff.Lockstep R (Ruuter.executeIterate h engine ctx s) := by
  simp only [DslStep.binds,List.mem_cons,List.mem_append] at bound
  apply Eff.lockstep_bind confined.evaluate
  intro list
  split
  · dsimp only
    split
    · exact Eff.lockstep_throw _
    · refine Eff.lockstep_bind (confined.iterateItems contained (bound _ (.inl rfl))
        (fun name held => bound name (.inr (.inr held))) own) fun ended => ?_
      cases ended with
      | inl early => exact Eff.lockstep_pure early
      | inr collected =>
        exact Eff.lockstep_bind (confined.bindResult fun name held => bound name (.inr (.inl held)))
          fun _ => Eff.lockstep_pure _
  · exact Eff.lockstep_throw _

/-- A detached block runs on a snapshot of the variables. -/
theorem executeDetach {s : DetachStep DslStep} (own : projects ctx.project) :
    Eff.Lockstep R (Ruuter.executeDetach h engine ctx s) := by
  unfold Ruuter.executeDetach
  dsimp only
  split
  · exact Eff.lockstep_throw _
  · apply Eff.lockstep_bind confined.consult
    intro outcome
    cases outcome with
    | noRegistry => exact Eff.lockstep_throw _
    | overflow cap => exact Eff.lockstep_throw _
    | spawned cutOff =>
      refine Eff.lockstep_get (fun s t related => by rw [confined.vars related]) fun now => ?_
      refine Eff.lockstep_bind (Eff.lockstep_attempt (confined.isolated fun vars => ?_)) fun _ => Eff.lockstep_pure _
      exact (confined.hide vars).runBody contained (fun _ _ => trivial) own

theorem executeSingleFlight {s : SingleFlightStep DslStep}
    (bound : ∀ name ∈ (DslStep.singleFlight s).binds, names name) (own : projects ctx.project) :
    Eff.Lockstep R (Ruuter.executeSingleFlight h engine ctx s) := by
  simp only [DslStep.binds,List.mem_append] at bound
  apply Eff.lockstep_bind confined.evaluateKey
  intro key
  apply Eff.lockstep_bind confined.consult
  intro role
  split
  · refine Eff.lockstep_bind (Eff.lockstep_attempt (confined.runBody contained
      (fun name held => bound name (.inr held)) own)) fun ended => ?_
    refine Eff.lockstep_get (fun s t related => by simp only [confined.vars related]) fun now => ?_
    apply Eff.lockstep_bind confined.emit
    intro _
    refine Eff.lockstep_bind (lockstep_ofExcept ended) fun early => ?_
    cases early with
    | some result => exact Eff.lockstep_pure result
    | none => exact Eff.lockstep_pure _
  · rename_i value
    refine Eff.lockstep_bind ?_ fun _ => Eff.lockstep_pure _
    cases value with
    | none => exact Eff.lockstep_pure ()
    | some value => exact confined.bindResult fun name held => bound name (.inl held)
  · exact Eff.lockstep_throw _
  · exact Eff.lockstep_throw _
  · exact Eff.lockstep_throw _

theorem executeSingleStepImpl {step : DslStep} (bound : ∀ name ∈ step.binds, names name)
    (own : projects ctx.project) : Eff.Lockstep R (Ruuter.executeSingleStepImpl h engine step ctx) := by
  cases step with
  | assign s => exact confined.executeAssign bound
  | returnStep s => exact confined.executeReturn
  | http s => exact confined.executeHttp contained bound
  | httpMock s => exact confined.executeHttpMock bound
  | switch s => exact confined.executeSwitch
  | log s => exact confined.executeLog
  | template s => exact confined.executeTemplate contained bound own
  | state s => exact confined.executeState bound own
  | iterate s => exact confined.executeIterate contained bound own
  | parallelHttp s => exact confined.executeParallelHttp bound
  | detach s => exact confined.executeDetach contained own
  | wsSend s => exact confined.executeWsSend
  | wsTag s => exact confined.executeWsTag
  | singleFlight s => exact confined.executeSingleFlight contained bound own
  | declaration s => exact Eff.lockstep_pure _

end Nested

theorem takeStep {execute : DslStep → Ctx → M StepResult} (kept : Eff.Lockstep R (execute step ctx)) :
    Eff.Lockstep R (Ruuter.takeStep execute dsl ctx name step index) := by
  have slept : Eff.Lockstep R (sleepFor step.base.sleep) := by
    unfold sleepFor
    split
    · exact confined.emit
    · exact Eff.lockstep_pure ()
  have reloaded : Eff.Lockstep R (triggerReload step.base) := by
    unfold triggerReload
    split
    · exact confined.emit
    · exact Eff.lockstep_pure ()
  apply Eff.lockstep_bind slept
  intro _
  apply Eff.lockstep_bind (lockstep_perform kept)
  intro result
  split
  · exact Eff.lockstep_pure _
  · exact Eff.lockstep_bind reloaded fun _ => lockstep_followNext

theorem runToEnd {execute : DslStep → Ctx → M StepResult}
    (kept : ∀ name step, Dsl.getStep dsl name = some step → Eff.Lockstep R (execute step ctx)) :
    Eff.Lockstep R (Ruuter.runToEnd h execute dsl ctx) := by
  apply Eff.lockstep_bind confined.emit
  intro _
  exact lockstep_runLoop fun name step index held => confined.takeStep (kept name step held)

end Executors
end Confined

/-- The engine is contained at every nesting bound. -/
theorem engine_contained (h : Host) (projects : String → Prop) (fuel : Nat) :
    Contained h projects (engine h fuel) := by
  induction fuel with
  | zero => exact ⟨fun _ _ _ => Eff.lockstep_throw _,fun _ _ _ => Eff.lockstep_throw _⟩
  | succ fuel ih =>
    have step : ∀ {R names step ctx}, Confined h R names projects →
        (∀ name ∈ DslStep.binds step, names name) → projects (Ctx.project ctx) →
        Eff.Lockstep R (executeSingleStep h (engine h fuel) step ctx) := by
      intro R names step ctx confined bound own
      exact Eff.lockstep_bind confined.emit fun _ => confined.executeSingleStepImpl ih bound own
    refine ⟨?_,step⟩
    intro R names dsl ctx confined bound own
    refine Eff.lockstep_map (confined.runToEnd fun name held found => ?_) _
    exact step confined (fun bindsName inside => bound _ (Dsl.binds_of_step found inside)) own

section Served
variable {h : Host} {R : St → St → Prop} {names projects : String → Prop} {engine : Engine}
  {client : HttpClient} {tree : Tree}

theorem resolve_served (found : resolveDslWithPathParams dsls project method path = some target) :
    (dsls.lookup project).isSome := by
  unfold resolveDslWithPathParams at found
  cases listed : dsls.lookup project with
  | some byMethod => rfl
  | none =>
    rw [listed] at found
    cases found

/-- The guards and the DSL of a request run for a project of the tree. -/
theorem Confined.executeDsl (confined : Confined h R names projects) (contained : Contained h projects engine)
    (served : (tree.dsls.lookup project).isSome → projects project) :
    Eff.Lockstep R
      (Ruuter.executeDsl r engine.run tree project method path body query headers origin) := by
  unfold Ruuter.executeDsl
  dsimp only
  split
  · exact Eff.lockstep_throw _
  · rename_i found
    have own : projects project := served (resolve_served found)
    have traced : Eff.Lockstep R (traceparentOf r (headers.lookup "traceparent")) := by
      unfold traceparentOf
      split
      · exact Eff.lockstep_pure _
      · exact confined.consult
    refine Eff.lockstep_bind traced fun traceparent => ?_
    refine confined.isolated fun vars => lockstep_guarded ?_ lockstep_raise ?_
    · exact (confined.hide vars).guardLoop fun dsl =>
        contained.run (confined.hide vars) (fun _ _ => trivial) own
    · unfold runDeclared
      split
      · exact contained.run (confined.hide vars) (fun _ _ => trivial) own
      · refine Eff.lockstep_bind (lockstep_ofExcept _) fun view => ?_
        exact contained.run (confined.hide vars) (fun _ _ => trivial) own

/-- A request is answered by the host, or by a run for a project of the tree. -/
theorem Confined.requestWithCt (confined : Confined h R names projects) (contained : Contained h projects engine)
    (served : client.selfOrigins ≠ [] → ∀ project, (tree.dsls.lookup project).isSome → projects project)
    (request : Outbound) :
    Eff.Lockstep R (Ruuter.requestWithCt h client r engine.run tree request) := by
  refine Eff.lockstep_bind confined.emit fun _ => ?_
  split
  · exact Eff.lockstep_pure _
  · split
    · exact Eff.lockstep_pure _
    · split
      · rename_i own
        have origins : client.selfOrigins ≠ [] := by
          intro external
          rw [isSelf_external external] at own
          exact Bool.false_ne_true own.1
        apply Eff.lockstep_attempt
        unfold selfCallDispatch
        split
        · exact Eff.lockstep_throw _
        · exact Eff.lockstep_bind (confined.executeDsl contained (served origins _)) fun _ =>
            Eff.lockstep_pure _
      · exact confined.consult

/-- With the runs of its self-calls the engine is contained in the projects of the tree as well. -/
theorem routed_contained (h : Host) (client : HttpClient) (r : Router) (tree : Tree)
    (served : client.selfOrigins ≠ [] → ∀ project, (tree.dsls.lookup project).isSome → projects project)
    (fuel : Nat) : Contained h projects (routed h client r tree fuel) := by
  induction fuel with
  | zero => exact engine_contained h projects 0
  | succ fuel ih =>
    have step : ∀ {R names step ctx}, Confined h R names projects →
        (∀ name ∈ DslStep.binds step, names name) → projects (Ctx.project ctx) →
        Eff.Lockstep R ((routed h client r tree (fuel + 1)).step step ctx) := by
      intro R names step ctx confined bound own
      have sent : ∀ request, Eff.Lockstep R
          (Ruuter.requestWithCt h client r (routed h client r tree fuel).run tree request) :=
        confined.requestWithCt ih served
      refine Eff.lockstep_bind confined.emit fun _ => ?_
      cases step with
      | http s => exact confined.executeHttpWith ih sent bound
      | parallelHttp s =>
        exact confined.executeParallelHttpWith (fun _ => Eff.lockstep_collect fun _ _ => sent _) bound
      | _ => exact confined.executeSingleStepImpl ih bound own
    refine ⟨?_,step⟩
    intro R names dsl ctx confined bound own
    refine Eff.lockstep_map (confined.runToEnd fun name held found => ?_) _
    exact step confined (fun bindsName inside => bound _ (Dsl.binds_of_step found inside)) own

end Served

section Results

theorem confined_vars (h : Host) (vars : StringMap Json) (names : String → Prop) :
    Confined h (fun s t => s = t ∧ ∀ name, ¬ names name → s.vars.lookup name = vars.lookup name) names
      fun _ => True where
  vars := by rintro s t ⟨rfl,_⟩; rfl
  stack := by rintro s t ⟨rfl,_⟩; rfl
  clock := by rintro s t ⟨rfl,_⟩; rfl
  moves := by
    rintro s t stack events clock ⟨rfl,free⟩
    exact ⟨rfl,free⟩
  binds := by
    rintro s t name value bound ⟨rfl,free⟩
    refine ⟨rfl,fun other unbound => ?_⟩
    have apart : other ≠ name := by
      rintro rfl
      exact unbound bound
    rw [AList.lookup_insert_ne apart]
    exact free other unbound
  reads := by rintro s t project key _ ⟨rfl,_⟩; rfl
  sets := by
    rintro project key value _ s t ⟨rfl,free⟩
    refine ⟨rfl,rfl,?_⟩
    rwa [Confined.storeSet_vars]
  deletes := by
    rintro s t project key _ ⟨rfl,free⟩
    exact ⟨rfl,free⟩
  interferes := by
    rintro s t now ⟨rfl,free⟩
    exact ⟨rfl,free⟩
  handles _ _ := trivial

/-- A run, whether it returns or fails, leaves every variable alone that none of its steps binds. -/
theorem run_keeps_unbound (h : Host) (fuel : Nat) (dsl : Dsl) (ctx : Ctx) (s : St) (free : name ∉ dsl.binds) :
    ((engine h fuel).run dsl ctx s).2.vars.lookup name = s.vars.lookup name := by
  have confined := confined_vars h s.vars (· ∈ dsl.binds)
  have kept : Eff.Keeps _ ((engine h fuel).run dsl ctx) :=
    ((engine_contained h _ fuel).run confined (fun _ bound => bound) trivial).keeps
  exact kept s (fun _ _ => rfl) name free

/-- A loop that keeps a sum and leaves `total` to its caller. -/
def sumDsl : Dsl where
  steps :=
    { entries :=
        [⟨"loop",.iterate
          { iterate :=
              { «over» := .array [.ofNat 1,.ofNat 2]
                itemVar := "item"
                body := [.assign { assign := (∅ : StringMap Json).insert "sum" (.string "${sum + item}") }]
                collect := some (.string "${sum}")
                into := some "sums" } }⟩]
      nodupKeys := by simp [List.NodupKeys] }

theorem run_keeps_unbound_total :
    "total" ∉ sumDsl.binds ∧
      ((engine {} 3).run sumDsl {} { vars := (∅ : StringMap Json).insert "total" .null }).2.vars.lookup "total" =
      some .null := by
  have free : "total" ∉ sumDsl.binds := by decide
  exact ⟨free,run_keeps_unbound {} 3 sumDsl {} _ free⟩

end Results
end Ruuter
