import Ruuter.Denial

/-! Status defaults of responses (`src/router/mod.rs`, the settings `dsl_with_response_status` and
`dsl_without_response_status`): they are for runs that set no status of their own. Only the
`return` step knows which runs those are; the router sees a number and takes 200 for unset. -/
namespace Ruuter

/-- The integer a value is as a status. -/
def Json.asStatus : Json → Option UInt64
  | .number n => n.asU64
  | _ => none

theorem statusOf_asStatus (value : Json) : statusOf value = value.asStatus.map (·.toUInt16) := by
  cases value with
  | number n => rfl
  | _ => rfl

/-- The status a run set itself: what the `status:` of its `return` step came to. -/
def RunEnd.explicitStatus : RunEnd → Option UInt64
  | .returned r => r.statusValue.bind Json.asStatus
  | .endOfSteps | .nextEnd | .iterationCap => none

/-- What every `return` step hands to the engine. -/
def StepResult.Faithful (r : StepResult) : Prop := r.Consistent ∧ r.returnValue.isSome

theorem runToEnd_faithful (h : Host) (fuel : Nat) (dsl : Dsl) (ctx : Ctx) :
    Eff.Returns (RunEnd.ReturnsBy StepResult.Faithful) (runToEnd h (engine h fuel).step dsl ctx) :=
  runToEnd_returnsBy (fun _ _ _ _ => ⟨rfl,rfl⟩) h fuel dsl ctx

section Ends
variable {ended : RunEnd}

theorem RunEnd.result_status (faithful : ended.ReturnsBy StepResult.Faithful) :
    ended.result.status = (ended.explicitStatus.map (·.toUInt16)).getD 200 := by
  cases ended with
  | returned r =>
    have given : r.returnStatus = r.statusValue.bind statusOf := (faithful r rfl).1
    simp only [result,explicitStatus,given]
    cases r.statusValue with
    | none => rfl
    | some value => exact congrArg (·.getD 200) (statusOf_asStatus value)
  | endOfSteps => rfl
  | nextEnd => rfl
  | iterationCap => rfl

theorem RunEnd.result_value (faithful : ended.ReturnsBy StepResult.Faithful)
    (explicit : ended.explicitStatus = some n) : ended.result.value.isSome := by
  cases ended with
  | returned r => exact (faithful r rfl).2
  | endOfSteps => cases explicit
  | nextEnd => cases explicit
  | iterationCap => cases explicit

end Ends

/-- A router with other status defaults. -/
def Router.withStatusDefaults (r : Router) (emitted silent : Option UInt16) : Router :=
  { r with dslWithResponseStatus := emitted, dslWithoutResponseStatus := silent }

/-- The context a DSL runs in behind its declaration. -/
def declaredCtx (dsl : Dsl) (ctx : Ctx) (method traceparent : String) : Except RuuterError Ctx :=
  match dsl.declaration with
  | none => .ok ctx
  | some decl => (applyDeclaration decl ctx.view method traceparent).map ctx.replaceRequestView

theorem runDeclared_eq (declared : declaredCtx dsl ctx method traceparent = .ok seen) :
    runDeclared run dsl ctx method traceparent = run dsl seen := by
  simp only [declaredCtx] at declared
  simp only [runDeclared]
  cases given : dsl.declaration with
  | none =>
    rw [given] at declared
    cases declared
    rfl
  | some decl =>
    rw [given] at declared
    dsimp only at declared
    cases applied : applyDeclaration decl ctx.view method traceparent with
    | error e =>
      rw [applied] at declared
      cases declared
    | ok view =>
      rw [applied] at declared
      cases declared
      simp only [applied]
      rfl

/-- A run answers a request: the run of the DSL the request resolves to, once its guards admit, or
a run whose result a guard denies with. -/
inductive Answers (r : Router) (h : Host) (fuel : Nat) (tree : Tree) (req : Request) (s : St) (ended : RunEnd) :
    Surface → Prop
  | served {dsl : Dsl} (front : frontChecks r req = .route)
      (split : pathSegments req.path = project :: segments)
      (resolved : resolveDslWithPathParams tree.dsls project (r.uppercase req.method)
        ("/".intercalate segments) = some (dsl,key,params))
      (plain : dsl.declaration.bind (·.proxy) = none)
      (external : dsl.effectiveInternal r.defaultInternal = false)
      (read : readBody r req = .ok body)
      (traced : traceparentOf r ((dslHeaders r req).lookup "traceparent") s = (.ok traceparent,t))
      (context : ctx =
        { requestBody := body
          requestQuery := withPathParams (stringValues req.queryMap) params
          requestHeaders := (dslHeaders r req).insert "traceparent" traceparent
          requestOrigin := resolveOrigin r req (dslHeaders r req)
          project
          traceparent := some traceparent })
      (admitted : executeDslGuards (engine h (fuel + 1)).run ctx (r.uppercase req.method)
        (applicableGuards tree.guards r.guardsMode project key)
        { t with vars := ∅, guardStack := [] } = (.ok none,u))
      (declared : declaredCtx dsl ctx (r.uppercase req.method) traceparent = .ok seen)
      (ran : runToEnd h (engine h (fuel + 1)).step dsl seen u = (.ok ended,v)) :
      Answers r h fuel tree req s ended .executeDsl
  | denied {guard : Dsl}
      (denies : GuardDenies r (engine h (fuel + 1)).run tree req s surface ended.result)
      (ran : runToEnd h (engine h (fuel + 1)).step guard ctx t = (.ok ended,u)) :
      Answers r h fuel tree req s ended surface

theorem parseBody_congr {r r' : Router} (json : r'.parseJson = r.parseJson) (form : r'.parseForm = r.parseForm)
    (multipart : r'.parseMultipart = r.parseMultipart) (parts : r'.multipartMaxParts = r.multipartMaxParts)
    (size : r'.multipartMaxPartSize = r.multipartMaxPartSize) (lossy : r'.utf8Lossy = r.utf8Lossy) :
    parseBody r' = parseBody r := by
  funext contentType bytes
  simp only [parseBody,json,form,multipart,parts,size,lossy]

section Defaults
variable {r : Router} {h : Host} {fuel : Nat} {tree : Tree} {req : Request} {s : St} {ended : RunEnd}
variable (emitted silent : Option UInt16)

theorem readBody_withStatusDefaults :
    readBody (r.withStatusDefaults emitted silent) req = readBody r req := by
  have headers : dslHeaders (r.withStatusDefaults emitted silent) req = dslHeaders r req := rfl
  simp only [readBody,headers,
    @parseBody_congr r (r.withStatusDefaults emitted silent) rfl rfl rfl rfl rfl rfl]

/-- The status defaults decide nothing before the response. -/
theorem GuardDenies.withStatusDefaults (denies : GuardDenies r run tree req s surface result) :
    GuardDenies (r.withStatusDefaults emitted silent) run tree req s surface result := by
  cases denies with
  | http front split resolved plain external read traced denied =>
    have read' := (readBody_withStatusDefaults emitted silent).trans read
    exact .http front split resolved plain external read' traced denied
  | proxy front split resolved proxied traced denied => exact .proxy front split resolved proxied traced denied
  | upgrade front target denied => exact .upgrade front target denied

theorem Answers.withStatusDefaults (answers : Answers r h fuel tree req s ended surface) :
    Answers (r.withStatusDefaults emitted silent) h fuel tree req s ended surface := by
  cases answers with
  | served front split resolved plain external read traced context admitted declared ran =>
    have read' := (readBody_withStatusDefaults emitted silent).trans read
    exact .served front split resolved plain external read' traced context admitted declared ran
  | denied denies ran => exact .denied (denies.withStatusDefaults emitted silent) ran

theorem Answers.faithful (answers : Answers r h fuel tree req s ended surface) :
    ended.ReturnsBy StepResult.Faithful := by
  cases answers with
  | served _ _ _ _ _ _ _ _ _ _ ran => exact runToEnd_faithful h (fuel + 1) _ _ _ _ _ ran
  | denied _ ran => exact runToEnd_faithful h (fuel + 1) _ _ _ _ _ ran

/-- The status a result is sent with. Only the response of a DSL looks at the defaults. -/
def sentStatus (r : Router) (surface : Surface) (result : DslExecutionResult) : UInt16 :=
  match surface with
  | .executeDsl => renderedStatus r result
  | .proxy | .wsUpgrade | .template => statusFromU16 result.status 403

theorem GuardDenies.above (denies : GuardDenies r run tree req s surface result) : 400 ≤ result.status := by
  cases denies with
  | http _ _ _ _ _ _ _ denied => exact guardLoop_denied denied
  | proxy _ _ _ _ _ denied => exact guardLoop_denied denied
  | upgrade _ _ denied => exact guardLoop_denied denied

theorem GuardDenies.sent (denies : GuardDenies r run tree req s surface result) :
    ∃ response t, handleRequestInner r run tree req s = (.ok response,t) ∧
      response.status = sentStatus r surface result := by
  cases denies with
  | http front split resolved plain external read traced denied =>
    exact handleRequestInner_status front split resolved plain external read
      (executeDsl_denied resolved traced denied)
  | proxy front split resolved proxied traced denied =>
    obtain ⟨t,answered⟩ := handleRequestInner_proxy front split resolved proxied traced denied
    exact ⟨_,t,answered,insertHeaders_status _⟩
  | upgrade front target denied =>
    obtain ⟨t,answered⟩ := handleRequestInner_upgrade front target denied
    exact ⟨_,t,answered,rfl⟩

/-- Behind guards that admit, `execute_dsl` gives what the DSL gives. -/
theorem executeDsl_admitted
    (resolved : resolveDslWithPathParams tree.dsls project (r.uppercase method) path = some (dsl,key,params))
    (traced : traceparentOf r (headers.lookup "traceparent") s = (.ok traceparent,t))
    (admitted : executeDslGuards run
      { requestBody := body
        requestQuery := withPathParams query params
        requestHeaders := headers.insert "traceparent" traceparent
        requestOrigin := origin
        project
        traceparent := some traceparent }
      (r.uppercase method) (applicableGuards tree.guards r.guardsMode project key)
      { t with vars := ∅, guardStack := [] } = (.ok none,u))
    (declared : declaredCtx dsl
      { requestBody := body
        requestQuery := withPathParams query params
        requestHeaders := headers.insert "traceparent" traceparent
        requestOrigin := origin
        project
        traceparent := some traceparent }
      (r.uppercase method) traceparent = .ok seen)
    (ran : run dsl seen u = (.ok result,v)) :
    executeDsl r run tree project method path body query headers origin s =
      (.ok result,{ v with vars := t.vars, guardStack := t.guardStack }) := by
  simp only [executeDsl,resolved]
  rw [Eff.bind_eq_ok traced]
  refine isolated_eq ?_ rfl
  rw [guarded_open admitted,runDeclared_eq declared]
  exact ran

theorem Answers.sent (answers : Answers r h fuel tree req s ended surface) :
    ∃ response t, handleRequestInner r (engine h (fuel + 1)).run tree req s = (.ok response,t) ∧
      response.status = sentStatus r surface ended.result := by
  cases answers with
  | denied denies _ => exact denies.sent
  | served front split resolved plain external read traced context admitted declared ran =>
    subst context
    exact handleRequestInner_status front split resolved plain external read
      (executeDsl_admitted resolved traced admitted declared (Eff.bind_eq_ok ran))

/-- The setting for runs that set no status. -/
def statusDefault (r : Router) (result : DslExecutionResult) : Option UInt16 :=
  if result.value.isSome then r.dslWithResponseStatus else r.dslWithoutResponseStatus

/-- What the settings promise about the status of a response: a status that the run set is sent
and sent with any setting, and the setting is for all other runs. `bare` is what is sent when
nothing is configured. -/
structure StatusLaw (r : Router) (ended : RunEnd) (status bare : UInt16) : Prop where
  wins : ∀ n, ended.explicitStatus = some n → 100 ≤ n → n ≤ 999 → status.toNat = n.toNat
  unaffected : ended.explicitStatus.isSome → status = bare
  defaults : ended.explicitStatus = none → status = statusFromU16 ((statusDefault r ended.result).getD 200) 200

/-- A setting that turns 200 into something else. -/
def Replaces (setting : Option UInt16) : Prop := ∃ n, setting = some n ∧ n ≠ 200 ∧ 100 ≤ n ∧ n ≤ 999

theorem statusFromU16_default (setting : Option UInt16) :
    statusFromU16 (setting.getD 200) 200 = 200 ↔ ¬ Replaces setting := by
  cases setting with
  | none => simp [statusFromU16,Replaces]
  | some n =>
    by_cases ok : n = 200
    · simp [statusFromU16,Replaces,ok]
    · simp [statusFromU16,Replaces,ok]

theorem toUInt16_eq_ok (n : UInt64) : n.toUInt16 = 200 ↔ n.toNat % 2 ^ 16 = 200 := by
  rw [← UInt16.toNat_inj,UInt64.toNat_toUInt16]
  rfl

theorem renderedStatus_unset (faithful : ended.ReturnsBy StepResult.Faithful)
    (unset : ended.explicitStatus = none) :
    renderedStatus r ended.result = statusFromU16 ((statusDefault r ended.result).getD 200) 200 := by
  have status : ended.result.status = 200 := by rw [RunEnd.result_status faithful,unset]; rfl
  simp [renderedStatus,statusDefault,status]

theorem renderedStatus_set (faithful : ended.ReturnsBy StepResult.Faithful)
    (set : ended.explicitStatus = some n) (own : n.toUInt16 ≠ 200) :
    renderedStatus r ended.result = statusFromU16 n.toUInt16 200 := by
  have status : ended.result.status = n.toUInt16 := by rw [RunEnd.result_status faithful,set]; rfl
  simp [renderedStatus,status,own]

/-- The router takes a 200 that the run set for an unset status. -/
theorem renderedStatus_taken (faithful : ended.ReturnsBy StepResult.Faithful)
    (set : ended.explicitStatus = some n) (ok : n.toUInt16 = 200) :
    renderedStatus r ended.result = statusFromU16 (r.dslWithResponseStatus.getD 200) 200 := by
  have status : ended.result.status = 200 := by rw [RunEnd.result_status faithful,set]; exact ok
  have value := RunEnd.result_value faithful set
  simp [renderedStatus,status,value]

/-- A valid status is sent as it is, whatever the fallback. -/
theorem statusFromU16_valid (least : 100 ≤ n) (most : n ≤ 999) :
    (statusFromU16 n.toUInt16 fallback).toNat = UInt64.toNat n := by
  have bounds : 100 ≤ n.toNat ∧ n.toNat ≤ 999 := ⟨least,most⟩
  have same : n.toUInt16.toNat = n.toNat := by
    rw [UInt64.toNat_toUInt16]
    omega
  have valid : 100 ≤ n.toUInt16 ∧ n.toUInt16 ≤ 999 := by
    rw [UInt16.le_iff_toNat_le,UInt16.le_iff_toNat_le,same]
    exact bounds
  simp [statusFromU16,valid,same]

theorem statusLaw_unset (unset : ended.explicitStatus = none)
    (default : status = statusFromU16 ((statusDefault r ended.result).getD 200) 200) :
    StatusLaw r ended status bare where
  wins := by simp [unset]
  unaffected := by simp [unset]
  defaults _ := default

theorem statusLaw_set (set : ended.explicitStatus = some n) :
    StatusLaw r ended status bare ↔ (100 ≤ n → n ≤ 999 → status.toNat = n.toNat) ∧ status = bare := by
  constructor
  · intro law
    exact ⟨law.wins n set,law.unaffected (by simp [set])⟩
  · rintro ⟨wins,unaffected⟩
    exact ⟨by simpa [set] using wins,fun _ => unaffected,by simp [set]⟩

/-- A status the run set is sent with any setting, unless it is the 200 the router takes for unset. -/
theorem sentStatus_set (answers : Answers r h fuel tree req s ended surface)
    (set : ended.explicitStatus = some n) (own : n.toUInt16 ≠ 200) :
    ∃ fallback, ∀ q : Router, sentStatus q surface ended.result = statusFromU16 n.toUInt16 fallback := by
  have faithful := answers.faithful
  have status : ended.result.status = n.toUInt16 := by rw [RunEnd.result_status faithful,set]; rfl
  cases surface with
  | executeDsl => exact ⟨200,fun q => renderedStatus_set faithful set own⟩
  | proxy => exact ⟨403,fun q => congrArg (statusFromU16 · 403) status⟩
  | wsUpgrade => exact ⟨403,fun q => congrArg (statusFromU16 · 403) status⟩
  | template => exact ⟨403,fun q => congrArg (statusFromU16 · 403) status⟩

/-- Only the response of a DSL has a status the run did not set, or a 200. -/
theorem Answers.executeDsl (answers : Answers r h fuel tree req s ended surface)
    (low : ended.result.status = 200) : surface = .executeDsl := by
  cases answers with
  | served => rfl
  | denied denies _ =>
    have denial := denies.above
    rw [low] at denial
    exact absurd denial (by decide)

/-- An explicit status wins over the settings exactly when it is not a 200 that one of them replaces. -/
theorem explicit_status_wins (r : Router) (h : Host) (fuel : Nat) (tree : Tree) (req : Request) (s : St)
    (ended : RunEnd) (surface : Surface) (answers : Answers r h fuel tree req s ended surface) :
    ∃ response t bare u,
      handleRequestInner r (engine h (fuel + 1)).run tree req s = (.ok response,t) ∧
      handleRequestInner (r.withStatusDefaults none none) (engine h (fuel + 1)).run tree req s = (.ok bare,u) ∧
      (StatusLaw r ended response.status bare.status ↔
        ∀ n, ended.explicitStatus = some n → n.toNat % 2 ^ 16 = 200 → ¬ Replaces r.dslWithResponseStatus) := by
  obtain ⟨response,t,answered,status⟩ := answers.sent
  obtain ⟨bare,u,bareAnswered,bareStatus⟩ := (answers.withStatusDefaults none none).sent
  refine ⟨response,t,bare,u,answered,bareAnswered,?_⟩
  rw [status,bareStatus]
  have faithful := answers.faithful
  cases set : ended.explicitStatus with
  | none =>
    have low : ended.result.status = 200 := by rw [RunEnd.result_status faithful,set]; rfl
    obtain rfl := answers.executeDsl low
    exact iff_of_true (statusLaw_unset set (renderedStatus_unset faithful set)) (by simp)
  | some n =>
    rw [statusLaw_set set]
    by_cases ok : n.toUInt16 = 200
    · have low : ended.result.status = 200 := by rw [RunEnd.result_status faithful,set]; exact ok
      obtain rfl := answers.executeDsl low
      have sent : sentStatus r .executeDsl ended.result = statusFromU16 (r.dslWithResponseStatus.getD 200) 200 :=
        renderedStatus_taken faithful set ok
      have bareSent : sentStatus (r.withStatusDefaults none none) .executeDsl ended.result = 200 :=
        renderedStatus_taken faithful set ok
      rw [sent,bareSent,statusFromU16_default]
      constructor
      · intro law m _ _
        exact law.2
      · intro kept
        have same := kept n rfl ((toUInt16_eq_ok n).mp ok)
        refine ⟨?_,same⟩
        intro least most
        rw [(statusFromU16_default _).mpr same]
        have valid : (statusFromU16 n.toUInt16 200).toNat = n.toNat := statusFromU16_valid least most
        rwa [ok] at valid
    · obtain ⟨fallback,sent⟩ := sentStatus_set answers set ok
      rw [sent,sent]
      refine iff_of_true ⟨statusFromU16_valid,rfl⟩ ?_
      intro m given taken
      cases given
      exact absurd ((toUInt16_eq_ok n).mpr taken) ok

end Defaults

/-- One public route that returns with a status. -/
def statusTree (status : Nat) : Tree where
  dsls := (∅ : HttpDsls).insert "app" ((∅ : StringMap (StringMap Dsl)).insert "GET"
    ((∅ : StringMap Dsl).insert "GET/jobs" (oneStepGuard
      (.returnStep { returnValue := .string "done", status := some (.ofNat status) }))))

/-- A run that returns with a status. -/
def statusEnd (status : Nat) : RunEnd :=
  .returned (.returning (.string "done") (some (.ofNat status)) none none)

/-- A router with a status for answers that set none. -/
def createdRouter : Router where
  dslWithResponseStatus := some 201

theorem statusTree_answers (status : Nat) :
    Answers createdRouter {} 0 (statusTree status) jobsRequest {} (statusEnd status) .executeDsl := by
  have split : pathSegments jobsRequest.path = "app" :: ["jobs"] := rfl
  have resolved : resolveDslWithPathParams (statusTree status).dsls "app" (createdRouter.uppercase jobsRequest.method)
      ("/".intercalate ["jobs"]) = some (oneStepGuard
        (.returnStep { returnValue := .string "done", status := some (.ofNat status) }),"GET/jobs",[]) := rfl
  have read : readBody createdRouter jobsRequest = .ok ∅ := rfl
  have traced : traceparentOf createdRouter ((dslHeaders createdRouter jobsRequest).lookup "traceparent") {} =
      (.ok "00-0af7651916cd43dd8448eb211c80319c-b7ad6b7169203331-01",{}) := rfl
  exact .served rfl split resolved rfl rfl read traced rfl rfl rfl rfl

theorem explicit_status_wins_accepted : ∃ response t bare u,
    handleRequestInner createdRouter (engine {} 1).run (statusTree 202) jobsRequest {} = (.ok response,t) ∧
    handleRequestInner (createdRouter.withStatusDefaults none none) (engine {} 1).run (statusTree 202)
      jobsRequest {} = (.ok bare,u) ∧
    (StatusLaw createdRouter (statusEnd 202) response.status bare.status ↔
      ∀ n, (statusEnd 202).explicitStatus = some n → n.toNat % 2 ^ 16 = 200 →
        ¬ Replaces createdRouter.dslWithResponseStatus) :=
  explicit_status_wins createdRouter {} 0 (statusTree 202) jobsRequest {} (statusEnd 202) .executeDsl
    (statusTree_answers 202)

/-- A run that sets 200 is answered with the status for runs that set none. -/
theorem explicit_ok_replaced :
    Answers createdRouter {} 0 (statusTree 200) jobsRequest {} (statusEnd 200) .executeDsl ∧
      (statusEnd 200).explicitStatus = some 200 ∧
      ∃ response t, handleRequestInner createdRouter (engine {} 1).run (statusTree 200) jobsRequest {} =
        (.ok response,t) ∧ response.status = 201 := by
  obtain ⟨response,t,answered,status⟩ := (statusTree_answers 200).sent
  exact ⟨statusTree_answers 200,rfl,response,t,answered,status⟩

end Ruuter
