import Ruuter.Surfaces

/-! The guard stack. The engine is run a second time with the keys of the open guard runs
written beside it, and an audit at every run and every step compares the stack with them. -/
namespace Ruuter

/-- The stack of a context in which the guards of `keys` are running, outermost first. -/
structure Disciplined (keys : List String) (s : St) : Prop where
  exact : s.guardStack = keys
  distinct : keys.Nodup
  bounded : keys.length ≤ maxGuardDepth

theorem disciplined_iff : Disciplined keys s ↔
    s.guardStack = keys ∧ keys.Nodup ∧ keys.length ≤ maxGuardDepth :=
  ⟨fun held => ⟨held.exact,held.distinct,held.bounded⟩,fun ⟨exact,distinct,bounded⟩ => ⟨exact,distinct,bounded⟩⟩

instance : Decidable (Disciplined keys s) := decidable_of_iff _ disciplined_iff.symm

/-- What an audit does when it fails. Results below hold for every alarm: none goes off. -/
abbrev Alarm := St → RuuterError × St

/-- Run a computation and audit the stack before and after, whatever the outcome. -/
def watched (alarm : Alarm) (keys : List String) (m : M α) : M α := fun s =>
  if Disciplined keys s then
    match m s with
    | (outcome,t) => if Disciplined keys t then (outcome,t) else (.error (alarm t).1,(alarm t).2)
  else (.error (alarm s).1,(alarm s).2)

/-- A guard loop whose runs know the key of their guard. -/
def keyedLoop (run : String → Runner) (ctx : Ctx) (skip : Bool)
    (contract : Dsl → Except RuuterError Unit) (chain : List (String × Dsl)) : M (Option Refusal) :=
  Eff.firstM (fun entry => admitGuard (run entry.1) ctx skip contract entry) chain

/-- The loop of a surface, with runs that know their key. -/
def Surface.keyed (surface : Surface) (run : String → Runner) (ctx : Ctx) (method : String) :
    List (String × Dsl) → M (Option Refusal) :=
  match surface with
  | .executeDsl | .proxy => keyedLoop run ctx false (guardContract · ctx.view method)
  | .wsUpgrade => keyedLoop run ctx false fun _ => .ok ()
  | .template => keyedLoop run ctx true fun _ => .ok ()

/-- `executeTemplate` with the call of guards and target left open. -/
def executeTemplateWith (h : Host) (ctx : Ctx)
    (call : (target : Dsl) → (child : Ctx) → List (String × Dsl) → M DslExecutionResult)
    (s : TemplateStep) : M StepResult := do
  match ← consult h.loadDsls with
  | none =>
    Eff.throw (.invalidStep ("template step invoked but the engine has no DSL tree attached — " ++
      "use StepEngine::with_dsls at boot"))
  | some dsls =>
    let method := h.uppercase (s.requestType.getD "GET")
    let key := method ++ "/" ++ Text.trimMatches s.template '/'
    match lookupDsl dsls ctx.project method key with
    | none =>
      Eff.throw (.fileNotFound ("template not found: " ++ key ++ " (project=" ++ ctx.project ++ ")"))
    | some target =>
      let body ← evaluateMapArg h ctx "template" "body" s.body
      let query ← evaluateMapArg h ctx "template" "query" s.query
      let headers ← evaluateMapArg h ctx "template" "headers" s.headers
      let texts : StringMap String := ((headers.getD ∅).entries.filter (!·.2.isNull)).foldl
        (fun map entry => map.insert entry.1 (jsonToString h entry.2)) ∅
      let child : Ctx :=
        { requestBody := body.getD ∅
          requestQuery := query.getD ∅
          requestHeaders := texts
          requestOrigin := ctx.requestOrigin
          project := ctx.project
          traceparent := ctx.traceparent.or (texts.lookup "traceparent") }
      let chain ← consult fun now => applicableGuards (h.loadGuards now) h.guardsMode ctx.project key
      let result ← inChild (call target child chain)
      bindResult s.result (result.value.getD .null)
      pure { nextStep := s.next }

/-- The guards of a target, each in a run that knows its key, and the target. -/
def callTemplate (guardRun : String → Runner) (run : Runner) (target : Dsl) (child : Ctx)
    (chain : List (String × Dsl)) : M DslExecutionResult :=
  guarded (keyedLoop guardRun child true (fun _ => .ok ()) chain) Refusal.raise (run target child)

theorem executeTemplate_eq (engine : Engine) :
    executeTemplate h engine ctx s =
      executeTemplateWith h ctx (callTemplate (fun _ => engine.run) engine.run) s := rfl

/-- A step, with an engine for each list of open guards: a guard run opens its key, the
exception DSL and a detached block run in a context of their own, everything else runs under
the same guards. -/
def auditedStepImpl (h : Host) (nested : List String → Engine) (keys : List String) (step : DslStep)
    (ctx : Ctx) : M StepResult :=
  match step with
  | .template s =>
    executeTemplateWith h ctx
      (callTemplate (fun key => (nested (keys ++ [key])).run) (nested keys).run) s
  | .http s => executeHttp h (nested []) ctx s
  | .detach s => executeDetach h (nested []) ctx s
  | other => executeSingleStepImpl h (nested keys) other ctx

def auditedStep (h : Host) (alarm : Alarm) (nested : List String → Engine) (keys : List String)
    (step : DslStep) (ctx : Ctx) : M StepResult :=
  watched alarm keys do
    emit (.dispatched step)
    auditedStepImpl h nested keys step ctx

/-- The engine under audit. -/
def audited (h : Host) (alarm : Alarm) : (fuel : Nat) → (keys : List String) → Engine
  | 0, _ => engine h 0
  | fuel + 1, keys =>
    { run := fun dsl ctx => watched alarm keys
        (RunEnd.result <$> runToEnd h (auditedStep h alarm (audited h alarm fuel) keys) dsl ctx)
      step := auditedStep h alarm (audited h alarm fuel) keys }

section Agreement
variable {keys : List String} {h : Host} {ctx : Ctx} {alarm : Alarm}

theorem Disciplined.congr (held : Disciplined keys s) (same : t.guardStack = s.guardStack) :
    Disciplined keys t := { held with exact := same.trans held.exact }

theorem disciplined_frame : Frame (Disciplined keys) fun _ => True :=
  free_frame (fun _ _ held same _ => held.congr same) fun _ _ _ held => held.congr rfl

theorem watched_agrees {m n : M α} (same : Eff.Agree (Disciplined keys) m n) :
    Eff.Agree (Disciplined keys) m (watched alarm keys n) := by
  intro s held
  obtain ⟨eq,after⟩ := same s held
  refine ⟨?_,after⟩
  rw [eq] at after ⊢
  simp only [watched,if_pos held,if_pos after]

theorem isolated_agrees {m n : M α} (same : Eff.Agree (Disciplined []) m n) :
    Eff.Agree (Disciplined keys) (isolated vars m) (isolated vars n) := by
  refine Eff.agree_bracket (J := fun _ => Disciplined []) ?_ (fun _ _ => same) ?_
  · intro s _
    exact ⟨rfl,List.nodup_nil,by simp [maxGuardDepth]⟩
  · intro s t held _
    exact held.congr rfl

theorem inChild_agrees {m n : M α} (same : Eff.Agree (Disciplined keys) m n) :
    Eff.Agree (Disciplined keys) (inChild m) (inChild n) := by
  refine Eff.agree_bracket (J := fun _ => Disciplined keys) ?_ (fun _ _ => same) ?_
  · intro s held
    exact held.congr rfl
  · intro s t _ after
    exact after.congr rfl

/-- A key that `push_guard` accepts makes a longer stack that is still disciplined. -/
theorem Disciplined.push (held : Disciplined keys s) (accepted : (checkGuard key s).1 = .ok ()) :
    Disciplined (keys ++ [key]) { s with guardStack := s.guardStack ++ [key] } := by
  obtain ⟨room,absent⟩ := checkGuard_eq_ok.mp accepted
  simp only [isGuardOnStack,held.exact,List.contains_eq_mem,decide_eq_false_iff_not] at room absent
  refine ⟨by rw [held.exact],?_,?_⟩
  · exact List.nodup_append.mpr ⟨held.distinct,List.nodup_singleton key,by
      rintro a member b single rfl
      exact absent (List.mem_singleton.mp single ▸ member)⟩
  · rw [List.length_append,List.length_singleton]
    omega

/-- The frame of an accepted key is popped on every outcome of the guard run. -/
theorem inFrame_agrees {m n : M α} (same : Eff.Agree (Disciplined (keys ++ [key])) m n)
    (held : Disciplined keys s) (accepted : (checkGuard key s).1 = .ok ()) :
    inFrame key m s = inFrame key n s ∧ Disciplined keys (inFrame key m s).2 := by
  obtain ⟨eq,after⟩ := same _ (held.push accepted)
  refine ⟨by simp only [inFrame,Eff.bracket,eq],?_⟩
  exact { held with exact := by simp only [inFrame,Eff.bracket,after.exact,List.dropLast_concat] }

section Loop
variable {run : Runner} {keyed : String → Runner} {contract : Dsl → Except RuuterError Unit}

theorem admitGuard_agrees
    (same : ∀ key guard, Eff.Agree (Disciplined (keys ++ [key])) (run guard ctx) (keyed key guard ctx))
    (entry : String × Dsl) :
    Eff.Agree (Disciplined keys) (admitGuard run ctx skip contract entry)
      (admitGuard (keyed entry.1) ctx skip contract entry) := by
  obtain ⟨key,guard⟩ := entry
  intro s held
  by_cases met : (skip && isGuardOnStack s key) = true
  · rw [admitGuard_skip met,admitGuard_skip met]
    exact ⟨rfl,held⟩
  · have runs : (skip && isGuardOnStack s key) = false := by simpa using met
    cases meets : contract guard with
    | error e =>
      rw [admitGuard_contract runs meets,admitGuard_contract runs meets]
      exact ⟨rfl,held⟩
    | ok =>
      cases depth : (checkGuard key s).1 with
      | error e =>
        rw [admitGuard_stack runs meets depth,admitGuard_stack runs meets depth]
        exact ⟨rfl,held⟩
      | ok =>
        obtain ⟨eq,after⟩ := inFrame_agrees (same key guard) held depth
        rw [admitGuard_run runs meets depth,admitGuard_run runs meets depth,← eq]
        refine ⟨rfl,?_⟩
        rcases ran : inFrame key (run guard ctx) s with ⟨_ | result,t⟩
        · rwa [ran] at after
        · rwa [ran] at after

theorem keyedLoop_agrees
    (same : ∀ key guard, Eff.Agree (Disciplined (keys ++ [key])) (run guard ctx) (keyed key guard ctx)) :
    Eff.Agree (Disciplined keys) (keyedLoop (fun _ => run) ctx skip contract chain)
      (keyedLoop keyed ctx skip contract chain) :=
  Eff.agree_firstM fun entry _ => admitGuard_agrees same entry

theorem Surface.keyed_agrees (surface : Surface)
    (same : ∀ key guard, Eff.Agree (Disciplined (keys ++ [key])) (run guard ctx) (keyed key guard ctx)) :
    Eff.Agree (Disciplined keys) (surface.guards run ctx method chain)
      (surface.keyed keyed ctx method chain) := by
  cases surface with
  | executeDsl => exact keyedLoop_agrees same
  | proxy => exact keyedLoop_agrees same
  | wsUpgrade => exact keyedLoop_agrees same
  | template => exact keyedLoop_agrees same

theorem callTemplate_agrees
    (guards : ∀ key guard, Eff.Agree (Disciplined (keys ++ [key])) (run guard ctx) (keyed key guard ctx))
    (target : Eff.Agree (Disciplined keys) (run dsl ctx) (other dsl ctx)) :
    Eff.Agree (Disciplined keys) (callTemplate (fun _ => run) run dsl ctx chain)
      (callTemplate keyed other dsl ctx chain) := by
  refine Eff.agree_bind (keyedLoop_agrees guards) fun found => ?_
  cases found with
  | none => exact target
  | some refusal => exact Eff.agree_refl (raise_keeps refusal)

end Loop

/-- What the executors rely on: the engine under audit does what the engine does, in every
context with the stack it expects. -/
structure EngineAgrees (engine : Engine) (nested : List String → Engine) : Prop where
  run : ∀ keys dsl ctx, Eff.Agree (Disciplined keys) (engine.run dsl ctx) ((nested keys).run dsl ctx)
  step : ∀ keys step ctx,
    Eff.Agree (Disciplined keys) (engine.step step ctx) ((nested keys).step step ctx)

section Executors
variable {engine : Engine} {nested : List String → Engine}

theorem reportFailure_agrees (same : EngineAgrees engine nested) :
    Eff.Agree (Disciplined keys) (reportFailure h engine ctx response)
      (reportFailure h (nested []) ctx response) := by
  unfold reportFailure
  split
  · exact Eff.agree_refl (Eff.keeps_pure ())
  · refine Eff.agree_bind (Eff.agree_attempt ?_) fun _ => Eff.agree_refl (Eff.keeps_pure ())
    refine Eff.agree_after disciplined_frame.consult fun loaded => ?_
    cases loaded with
    | none => exact Eff.agree_refl (Eff.keeps_throw _)
    | some dsls =>
      dsimp only
      split
      · exact Eff.agree_refl (Eff.keeps_throw _)
      · exact isolated_agrees (same.run _ _ _)

theorem executeHttp_agrees (same : EngineAgrees engine nested) :
    Eff.Agree (Disciplined keys) (executeHttp h engine ctx s) (executeHttp h (nested []) ctx s) := by
  unfold executeHttp executeHttpWith
  split
  · exact Eff.agree_refl (Eff.keeps_throw _)
  · refine Eff.agree_after (resolveArgs_keeps disciplined_frame fun _ _ => trivial) fun args => ?_
    refine Eff.agree_after (sendRequest_keeps disciplined_frame) fun sent => ?_
    refine Eff.agree_after (keeps_ofExcept sent) fun response => ?_
    refine Eff.agree_after disciplined_frame.bindResult fun _ => ?_
    split
    · exact Eff.agree_refl (Eff.keeps_pure _)
    · split
      · exact Eff.agree_refl (Eff.keeps_pure _)
      · split
        · exact Eff.agree_refl (Eff.keeps_pure _)
        · exact Eff.agree_bind (reportFailure_agrees same) fun _ => Eff.agree_refl (Eff.keeps_throw _)

theorem executeTemplate_agrees (same : EngineAgrees engine nested) :
    Eff.Agree (Disciplined keys) (executeTemplate h engine ctx s)
      (executeTemplateWith h ctx
        (callTemplate (fun key => (nested (keys ++ [key])).run) (nested keys).run) s) := by
  rw [executeTemplate_eq]
  refine Eff.agree_after disciplined_frame.consult fun loaded => ?_
  cases loaded with
  | none => exact Eff.agree_refl (Eff.keeps_throw _)
  | some dsls =>
    dsimp only
    split
    · exact Eff.agree_refl (Eff.keeps_throw _)
    · refine Eff.agree_after (evaluateMapArg_keeps disciplined_frame fun _ _ => trivial) fun body => ?_
      refine Eff.agree_after (evaluateMapArg_keeps disciplined_frame fun _ _ => trivial) fun query => ?_
      refine Eff.agree_after (evaluateMapArg_keeps disciplined_frame fun _ _ => trivial) fun headers => ?_
      refine Eff.agree_after disciplined_frame.consult fun chain => ?_
      refine Eff.agree_bind (inChild_agrees (callTemplate_agrees ?_ (same.run _ _ _))) fun result => ?_
      · exact fun key guard => same.run _ _ _
      · exact Eff.agree_refl (Eff.keeps_bind disciplined_frame.bindResult fun _ => Eff.keeps_pure _)

theorem runBody_agrees (same : EngineAgrees engine nested) :
    Eff.Agree (Disciplined keys) (runBody engine ctx steps) (runBody (nested keys) ctx steps) :=
  Eff.agree_firstM fun _ _ =>
    Eff.agree_bind (same.step _ _ _) fun _ => Eff.agree_refl (Eff.keeps_pure _)

theorem iterateItems_agrees (same : EngineAgrees engine nested) :
    Eff.Agree (Disciplined keys) (iterateItems h engine ctx b items)
      (iterateItems h (nested keys) ctx b items) := by
  induction items with
  | nil => exact Eff.agree_refl (Eff.keeps_pure _)
  | cons item rest ih =>
    refine Eff.agree_after disciplined_frame.setVariable fun _ => ?_
    refine Eff.agree_bind (runBody_agrees same) fun early => ?_
    cases early with
    | some result => exact Eff.agree_refl (Eff.keeps_pure _)
    | none =>
      refine Eff.agree_after (evaluateOption_keeps disciplined_frame fun _ _ => trivial) fun value => ?_
      refine Eff.agree_bind ih fun later => ?_
      cases later with
      | inl early => exact Eff.agree_refl (Eff.keeps_pure _)
      | inr later => exact Eff.agree_refl (Eff.keeps_pure _)

theorem executeIterate_agrees (same : EngineAgrees engine nested) :
    Eff.Agree (Disciplined keys) (executeIterate h engine ctx s)
      (executeIterate h (nested keys) ctx s) := by
  refine Eff.agree_after (disciplined_frame.evaluates trivial) fun list => ?_
  split
  · dsimp only
    split
    · exact Eff.agree_refl (Eff.keeps_throw _)
    · refine Eff.agree_bind (iterateItems_agrees same) fun ended => ?_
      cases ended with
      | inl early => exact Eff.agree_refl (Eff.keeps_pure early)
      | inr collected =>
        exact Eff.agree_refl (Eff.keeps_bind disciplined_frame.bindResult fun _ => Eff.keeps_pure _)
  · exact Eff.agree_refl (Eff.keeps_throw _)

theorem executeDetach_agrees (same : EngineAgrees engine nested) :
    Eff.Agree (Disciplined keys) (executeDetach h engine ctx s)
      (executeDetach h (nested []) ctx s) := by
  unfold executeDetach
  dsimp only
  split
  · exact Eff.agree_refl (Eff.keeps_throw _)
  · refine Eff.agree_after disciplined_frame.consult fun outcome => ?_
    cases outcome with
    | noRegistry => exact Eff.agree_refl (Eff.keeps_throw _)
    | overflow cap => exact Eff.agree_refl (Eff.keeps_throw _)
    | spawned cutOff =>
      refine Eff.agree_after Eff.keeps_get fun now => ?_
      exact Eff.agree_bind (Eff.agree_attempt (isolated_agrees (runBody_agrees same))) fun _ =>
        Eff.agree_refl (Eff.keeps_pure _)

theorem executeSingleFlight_agrees (same : EngineAgrees engine nested) :
    Eff.Agree (Disciplined keys) (executeSingleFlight h engine ctx s)
      (executeSingleFlight h (nested keys) ctx s) := by
  refine Eff.agree_after (evaluateKey_keeps disciplined_frame trivial) fun key => ?_
  refine Eff.agree_after disciplined_frame.consult fun role => ?_
  split
  · refine Eff.agree_bind (Eff.agree_attempt (runBody_agrees same)) fun ended => Eff.agree_refl ?_
    refine Eff.keeps_bind Eff.keeps_get fun now => ?_
    refine Eff.keeps_bind (disciplined_frame.emits trivial) fun _ => ?_
    refine Eff.keeps_bind (keeps_ofExcept ended) fun early => ?_
    cases early with
    | some result => exact Eff.keeps_pure result
    | none => exact Eff.keeps_pure _
  · exact Eff.agree_refl (Eff.keeps_bind (bindReceived_keeps disciplined_frame) fun _ => Eff.keeps_pure _)
  · exact Eff.agree_refl (Eff.keeps_throw _)
  · exact Eff.agree_refl (Eff.keeps_throw _)
  · exact Eff.agree_refl (Eff.keeps_throw _)

theorem auditedStepImpl_agrees (same : EngineAgrees engine nested) (step : DslStep) :
    Eff.Agree (Disciplined keys) (executeSingleStepImpl h engine step ctx)
      (auditedStepImpl h nested keys step ctx) := by
  cases step with
  | template s => exact executeTemplate_agrees same
  | http s => exact executeHttp_agrees same
  | detach s => exact executeDetach_agrees same
  | iterate s => exact executeIterate_agrees same
  | singleFlight s => exact executeSingleFlight_agrees same
  | _ =>
    refine Eff.agree_refl (executeLeaf_keeps disciplined_frame trivial (fun _ _ => trivial) (.inl ?_))
    exact fun _ => trivial

theorem auditedStep_agrees (same : EngineAgrees engine nested) (step : DslStep) :
    Eff.Agree (Disciplined keys) (executeSingleStep h engine step ctx)
      (auditedStep h alarm nested keys step ctx) := by
  apply watched_agrees
  refine Eff.agree_after (fun _ held => held.congr rfl) fun _ => ?_
  exact auditedStepImpl_agrees same step

end Executors

section Run
variable {execute other : DslStep → Ctx → M StepResult} {dsl : Dsl}

theorem takeStep_agrees (same : Eff.Agree (Disciplined keys) (execute step ctx) (other step ctx)) :
    Eff.Agree (Disciplined keys) (takeStep execute dsl ctx name step index)
      (takeStep other dsl ctx name step index) := by
  refine Eff.agree_after (sleepFor_keeps disciplined_frame) fun _ => ?_
  refine Eff.agree_bind ?_ fun result => ?_
  · unfold perform
    split
    · exact Eff.agree_refl (Eff.keeps_pure _)
    · exact Eff.agree_mapError same
  · split
    · exact Eff.agree_refl (Eff.keeps_pure _)
    · exact Eff.agree_refl
        (Eff.keeps_bind (triggerReload_keeps disciplined_frame) fun _ => followNext_keeps)

theorem runLoop_agrees
    (same : ∀ step, Eff.Agree (Disciplined keys) (execute step ctx) (other step ctx)) :
    Eff.Agree (Disciplined keys) (runLoop h execute dsl ctx budget index recursions)
      (runLoop h other dsl ctx budget index recursions) := by
  induction budget generalizing index recursions with
  | zero => exact Eff.agree_refl (Eff.keeps_pure _)
  | succ budget ih =>
    unfold runLoop
    split
    · exact Eff.agree_refl (Eff.keeps_pure _)
    · split
      · exact Eff.agree_refl (Eff.keeps_throw _)
      · rename_i step _
        dsimp only
        split
        · exact ih
        · refine Eff.agree_bind (takeStep_agrees (same step)) fun move => ?_
          cases move with
          | goto next => exact ih
          | stop ended => exact Eff.agree_refl (Eff.keeps_pure ended)

end Run

/-- At every nesting bound the engine under audit does what the engine does. -/
theorem audited_agrees (h : Host) (alarm : Alarm) (fuel : Nat) :
    EngineAgrees (engine h fuel) (audited h alarm fuel) := by
  induction fuel with
  | zero =>
    exact ⟨fun _ _ _ => Eff.agree_refl (Eff.keeps_throw _),fun _ _ _ => Eff.agree_refl (Eff.keeps_throw _)⟩
  | succ fuel ih =>
    constructor
    · intro keys dsl ctx
      apply watched_agrees
      refine Eff.agree_bind ?_ fun ended => Eff.agree_refl (Eff.keeps_pure _)
      refine Eff.agree_after (fun _ held => held.congr rfl) fun _ => ?_
      exact runLoop_agrees fun step => auditedStep_agrees ih step
    · intro keys step ctx
      exact auditedStep_agrees ih step

end Agreement

/-- A loop that skips is the loop without skipping over the guards not on the stack. -/
theorem guardLoop_pending {run : Runner} (balanced : Balanced run) :
    guardLoop run ctx true contract chain s =
      guardLoop run ctx false contract (pending true s chain) s := by
  induction chain generalizing s with
  | nil => rfl
  | cons entry rest ih =>
    obtain ⟨key,guard⟩ := entry
    by_cases met : isGuardOnStack s key = true
    · rw [pending_skip (by simpa using met),← ih]
      exact Eff.bind_eq_ok (admitGuard_skip (by simpa using met))
    · have runs : (true && isGuardOnStack s key) = false := by simpa using met
      have same : admitGuard run ctx true contract (key,guard) s =
          admitGuard run ctx false contract (key,guard) s := by
        simp only [admitGuard]
        rw [Eff.bind_eq_ok (Eff.get_eq s),Eff.bind_eq_ok (Eff.get_eq s),if_neg (by simp [met]),
          if_neg (by simp)]
      rw [pending_run runs]
      rcases round : admitGuard run ctx false contract (key,guard) s with ⟨e | found,t⟩
      · exact (Eff.bind_eq_error (same.trans round)).trans (Eff.bind_eq_error round).symm
      · refine (Eff.bind_eq_ok (same.trans round)).trans ((Eff.bind_eq_ok round).trans ?_).symm
        cases found with
        | some refusal => rfl
        | none =>
          have kept : t.guardStack = s.guardStack := by
            obtain ⟨_,rfl⟩ | ⟨_,_,_,result,ran,_⟩ := admitGuard_pass round
            · rfl
            · exact inFrame_stack balanced ran
          rw [← pending_congr kept]
          exact ih.symm

/-- In every run, step and guard loop the stack holds exactly the keys of the guards that are
running, in order, without repetition and within the depth, and it is restored on every
outcome. A `template` step runs the guards of its target that are not on the stack. -/
theorem guard_stack_disciplined (h : Host) (fuel : Nat) :
    (∀ alarm keys s, Disciplined keys s →
      (∀ dsl ctx, (audited h alarm fuel keys).run dsl ctx s = (engine h fuel).run dsl ctx s ∧
        Disciplined keys ((engine h fuel).run dsl ctx s).2) ∧
      (∀ step ctx, (audited h alarm fuel keys).step step ctx s = (engine h fuel).step step ctx s ∧
        Disciplined keys ((engine h fuel).step step ctx s).2) ∧
      ∀ (surface : Surface) ctx method chain,
        surface.keyed (fun key => (audited h alarm fuel (keys ++ [key])).run) ctx method chain s =
          surface.guards (engine h fuel).run ctx method chain s ∧
        Disciplined keys (surface.guards (engine h fuel).run ctx method chain s).2) ∧
    ∀ ctx chain s,
      templateGuards (engine h fuel).run ctx chain s =
        guardLoop (engine h fuel).run ctx false (fun _ => .ok ()) (pending true s chain) s ∧
      ∀ u, templateGuards (engine h fuel).run ctx chain s = (.ok none,u) →
        Admitted (engine h fuel).run ctx (fun _ => .ok ()) (pending true s chain) s u := by
  refine ⟨?_,?_⟩
  · intro alarm keys s held
    have agrees := audited_agrees h alarm fuel
    refine ⟨?_,?_,?_⟩
    · intro dsl ctx
      obtain ⟨eq,after⟩ := agrees.run keys dsl ctx s held
      exact ⟨eq.symm,after⟩
    · intro step ctx
      obtain ⟨eq,after⟩ := agrees.step keys step ctx s held
      exact ⟨eq.symm,after⟩
    · intro surface ctx method chain
      obtain ⟨eq,after⟩ := Surface.keyed_agrees surface (fun key guard => agrees.run (keys ++ [key]) guard ctx) s held
      exact ⟨eq.symm,after⟩
  · intro ctx chain s
    refine ⟨guardLoop_pending (engine_balanced h fuel),?_⟩
    intro u passed
    exact (guardLoop_admitted (engine_balanced h fuel) passed).1

/-- A project guard whose `template` step calls a route that the guard covers itself. -/
def coveringGuard : Dsl where
  steps := (∅ : StringMap DslStep).insert "check" (.template { template := "login" })

def loginDsl : Dsl where
  steps := (∅ : StringMap DslStep).insert "done" (.returnStep { returnValue := .string "ok" })

def coveringHost : Host where
  loadDsls := fun _ => some ((∅ : HttpDsls).insert "app"
    ((∅ : StringMap (StringMap Dsl)).insert "GET" ((∅ : StringMap Dsl).insert "GET/login" loginDsl)))
  loadGuards := fun _ => (∅ : GuardDsls).insert "app" ((∅ : StringMap Dsl).insert "*" coveringGuard)

def stackAlarm : Alarm := fun s => (.outOfFuel,{ s with guardStack := ["alarm"] })

/-- The guard runs once: inside its own run the `template` step passes it over. -/
theorem coveringGuard_disciplined :
    Disciplined [] ({} : St) ∧
    Surface.executeDsl.keyed (fun key => (audited coveringHost stackAlarm 3 [key]).run)
        { project := "app" } "GET" [("*",coveringGuard)] {} =
      Surface.executeDsl.guards (engine coveringHost 3).run { project := "app" } "GET"
        [("*",coveringGuard)] {} ∧
    Disciplined [] (Surface.executeDsl.guards (engine coveringHost 3).run { project := "app" } "GET"
      [("*",coveringGuard)] {}).2 := by
  have held : Disciplined [] ({} : St) := by decide
  obtain ⟨same,after⟩ := ((guard_stack_disciplined coveringHost 3).1 stackAlarm [] {} held).2.2
    .executeDsl { project := "app" } "GET" [("*",coveringGuard)]
  exact ⟨held,same,after⟩

-- The audit is no formality: with other keys than those on the stack it goes off.
example : ((audited coveringHost stackAlarm 3 ["*"]).run loginDsl {} {}).2.guardStack = ["alarm"] := by
  decide +kernel

end Ruuter
