import Ruuter.Internal
import Ruuter.Surfaces

/-! Denials on the wire: the status a client gets when a guard denies its request. Three
renderers turn the `u16` of the guard into a status code, and only the one that ordinary
responses share falls back to 200. -/
namespace Ruuter

/-- A guard of a request denies with a result: what the request resolves to on each surface
a client can reach, and how the guards in front of it end. -/
inductive GuardDenies (r : Router) (run : Runner) (tree : Tree) (req : Request) (s : St) :
    Surface → DslExecutionResult → Prop
  | http {dsl : Dsl} (front : frontChecks r req = .route)
      (split : pathSegments req.path = project :: segments)
      (resolved : resolveDslWithPathParams tree.dsls project (r.uppercase req.method)
        ("/".intercalate segments) = some (dsl,key,params))
      (plain : dsl.declaration.bind (·.proxy) = none)
      (external : dsl.effectiveInternal r.defaultInternal = false)
      (read : readBody r req = .ok body)
      (traced : traceparentOf r ((dslHeaders r req).lookup "traceparent") s = (.ok traceparent,t))
      (denied : executeDslGuards run
        { requestBody := body
          requestQuery := withPathParams (stringValues req.queryMap) params
          requestHeaders := (dslHeaders r req).insert "traceparent" traceparent
          requestOrigin := resolveOrigin r req (dslHeaders r req)
          project
          traceparent := some traceparent }
        (r.uppercase req.method) (applicableGuards tree.guards r.guardsMode project key)
        { t with vars := ∅, guardStack := [] } = (.ok (some (.denied result)),u)) :
      GuardDenies r run tree req s .executeDsl result
  | proxy {dsl : Dsl} (front : frontChecks r req = .route)
      (split : pathSegments req.path = project :: segments)
      (resolved : resolveDslWithPathParams tree.dsls project (r.uppercase req.method)
        ("/".intercalate segments) = some (dsl,key,params))
      (proxied : dsl.declaration.bind (·.proxy) = some proxy)
      (traced : traceparentOf r ((dslHeaders r req).lookup "traceparent") s = (.ok traceparent,t))
      (denied : proxyGuards run
        { requestQuery := withPathParams (stringValues req.queryMap) params
          requestHeaders := (dslHeaders r req).insert "traceparent" traceparent
          requestOrigin := resolveOrigin r req (dslHeaders r req)
          project
          traceparent := some traceparent }
        (r.uppercase req.method) (applicableGuards tree.guards r.guardsMode project key)
        { t with vars := ∅, guardStack := [] } = (.ok (some (.denied result)),u)) :
      GuardDenies r run tree req s .proxy result
  | upgrade (front : frontChecks r req = .upgrade)
      (target : upgradeTarget tree req = some (project,key,dsl))
      (denied : wsUpgradeGuards run
        { requestQuery := stringValues req.queryMap
          requestHeaders := req.headersMap
          requestOrigin := "ws-upgrade"
          project
          traceparent := req.headersMap.lookup "traceparent" }
        (applicableGuards tree.guards r.guardsMode project key)
        { s with vars := ∅, guardStack := [] } = (.ok (some (.denied result)),u)) :
      GuardDenies r run tree req s .wsUpgrade result

/-- The status code of a DSL run: an override counts only for a 200. -/
def renderedStatus (r : Router) (result : DslExecutionResult) : UInt16 :=
  let configured := if result.value.isSome then r.dslWithResponseStatus else r.dslWithoutResponseStatus
  statusFromU16 (if result.status = 200 then configured.getD result.status else result.status) 200

theorem dslResponse_status (r : Router) (result : DslExecutionResult) :
    (dslResponse r result).status = renderedStatus r result := by
  unfold dslResponse
  dsimp only
  split
  · split <;> exact insertHeaders_status _
  · exact insertHeaders_status _

/-- A loop that ends in a denial does so for a status of 400 or above. -/
theorem guardLoop_denied {skip : Bool} {contract : Dsl → Except RuuterError Unit}
    (denied : guardLoop run ctx skip contract chain s = (.ok (some (.denied result)),t)) :
    400 ≤ result.status := by
  have each : ∀ entry ∈ chain, Eff.Returns
      (fun found => ∀ refusal, found = some refusal → ∀ result, refusal = .denied result → 400 ≤ result.status)
      (admitGuard run ctx skip contract entry) := by
    intro entry _
    refine Eff.returns_bind_any fun now => ?_
    split
    · exact Eff.returns_pure nofun
    · split
      · exact Eff.returns_pure (by simp)
      · refine Eff.returns_bind_any fun checked => ?_
        split
        · exact Eff.returns_pure (by simp)
        · refine Eff.returns_bind_any fun ran => ?_
          split
          · exact Eff.returns_pure (by simp)
          · refine Eff.returns_pure ?_
            intro refusal found given eq
            split at found
            · cases found
              cases eq
              assumption
            · cases found
  exact Eff.returns_firstM each s _ t denied _ rfl result rfl

theorem statusFromU16_forbidden (denial : 400 ≤ status) : 400 ≤ statusFromU16 status 403 := by
  unfold statusFromU16
  split
  · exact denial
  · decide

/-- The fallback of ordinary responses keeps a denial exactly when it is a status code. -/
theorem statusFromU16_ok (denial : 400 ≤ status) : 400 ≤ statusFromU16 status 200 ↔ status ≤ 999 := by
  have code : (100 ≤ status) := UInt16.le_trans (by decide) denial
  unfold statusFromU16
  by_cases valid : status ≤ 999
  · simp [code,valid,denial]
  · have below : ¬ (400 : UInt16) ≤ 200 := by decide
    simp [valid,below]

theorem guarded_refused (looped : loop s = (.ok (some refusal),t)) :
    guarded loop refuse target s = refuse refusal t := by
  simp only [guarded]
  rw [Eff.bind_eq_ok looped]

section Surfaces
variable {r : Router} {run : Runner} {tree : Tree} {req : Request} {dsl : Dsl}

/-- A denial is the result of `execute_dsl`. -/
theorem executeDsl_denied
    (resolved : resolveDslWithPathParams tree.dsls project (r.uppercase method) path = some (dsl,key,params))
    (traced : traceparentOf r (headers.lookup "traceparent") s = (.ok traceparent,t))
    (denied : executeDslGuards run
      { requestBody := body
        requestQuery := withPathParams query params
        requestHeaders := headers.insert "traceparent" traceparent
        requestOrigin := origin
        project
        traceparent := some traceparent }
      (r.uppercase method) (applicableGuards tree.guards r.guardsMode project key)
      { t with vars := ∅, guardStack := [] } = (.ok (some (.denied result)),u)) :
    executeDsl r run tree project method path body query headers origin s =
      (.ok result,{ u with vars := t.vars, guardStack := t.guardStack }) := by
  simp only [executeDsl,resolved]
  rw [Eff.bind_eq_ok traced]
  exact isolated_eq ((guarded_refused denied).trans rfl) rfl

/-- The status a client of the HTTP surface gets. -/
theorem handleRequestInner_status (front : frontChecks r req = .route)
    (split : pathSegments req.path = project :: segments)
    (resolved : resolveDslWithPathParams tree.dsls project (r.uppercase req.method)
      ("/".intercalate segments) = some (dsl,key,params))
    (plain : dsl.declaration.bind (·.proxy) = none)
    (external : dsl.effectiveInternal r.defaultInternal = false)
    (read : readBody r req = .ok body)
    (executed : executeDsl r run tree project req.method ("/".intercalate segments) body
      (stringValues req.queryMap) (dslHeaders r req) (resolveOrigin r req (dslHeaders r req)) s =
      (.ok result,t)) :
    ∃ response u, handleRequestInner r run tree req s = (.ok response,u) ∧
      response.status = renderedStatus r result := by
  obtain ⟨traceparent,u,_,answered⟩ := dslRoute_outcome read executed
  rw [← handle_external front split resolved plain external] at answered
  refine ⟨_,u,answered,?_⟩
  rw [applyDefaultResponseHeaders_status,echoTrace_status,outcomeResponse,dslResponse_status]

theorem handleRequestInner_proxy (front : frontChecks r req = .route)
    (split : pathSegments req.path = project :: segments)
    (resolved : resolveDslWithPathParams tree.dsls project (r.uppercase req.method)
      ("/".intercalate segments) = some (dsl,key,params))
    (proxied : dsl.declaration.bind (·.proxy) = some proxy)
    (traced : traceparentOf r ((dslHeaders r req).lookup "traceparent") s = (.ok traceparent,t))
    (denied : proxyGuards run
      { requestQuery := withPathParams (stringValues req.queryMap) params
        requestHeaders := (dslHeaders r req).insert "traceparent" traceparent
        requestOrigin := resolveOrigin r req (dslHeaders r req)
        project
        traceparent := some traceparent }
      (r.uppercase req.method) (applicableGuards tree.guards r.guardsMode project key)
      { t with vars := ∅, guardStack := [] } = (.ok (some (.denied result)),u)) :
    ∃ v, handleRequestInner r run tree req s = (.ok (buildGuardShortCircuit result),v) := by
  refine ⟨{ u with vars := t.vars, guardStack := t.guardStack },?_⟩
  simp only [handleRequestInner,front,split,routeRequest,resolved,proxied,proxyRoute]
  rw [Eff.bind_eq_ok traced]
  exact isolated_eq ((guarded_refused denied).trans rfl) rfl

theorem handleRequestInner_upgrade (front : frontChecks r req = .upgrade)
    (target : upgradeTarget tree req = some (project,key,dsl))
    (denied : wsUpgradeGuards run
      { requestQuery := stringValues req.queryMap
        requestHeaders := req.headersMap
        requestOrigin := "ws-upgrade"
        project
        traceparent := req.headersMap.lookup "traceparent" }
      (applicableGuards tree.guards r.guardsMode project key)
      { s with vars := ∅, guardStack := [] } = (.ok (some (.denied result)),u)) :
    ∃ v, handleRequestInner r run tree req s = (.ok (jsonResponse (statusFromU16 result.status 403)
      (result.value.getD (errorBody "WS guard denied"))),v) := by
  refine ⟨{ u with vars := s.vars, guardStack := s.guardStack },?_⟩
  simp only [handleRequestInner,front,handleWsUpgrade,target]
  exact isolated_eq ((guarded_refused denied).trans rfl) rfl

/-- On the proxy and the upgrade surface a denial arrives as one; on the HTTP surface exactly
when its status is a status code. -/
theorem denial_arrives (r : Router) (run : Runner) (tree : Tree) (req : Request) (s : St)
    (surface : Surface) (result : DslExecutionResult) (denied : GuardDenies r run tree req s surface result) :
    ∃ response t, handleRequestInner r run tree req s = (.ok response,t) ∧
      (400 ≤ response.status ↔ surface = .proxy ∨ surface = .wsUpgrade ∨ result.status ≤ 999) := by
  cases denied with
  | http front split resolved plain external read traced denied =>
    have denial := guardLoop_denied denied
    obtain ⟨response,t,answered,status⟩ := handleRequestInner_status front split resolved plain external read
      (executeDsl_denied resolved traced denied)
    refine ⟨response,t,answered,?_⟩
    have own : result.status ≠ 200 := by
      intro success
      rw [success] at denial
      exact absurd denial (by decide)
    rw [status,renderedStatus,if_neg own,statusFromU16_ok denial]
    simp
  | proxy front split resolved proxied traced denied =>
    obtain ⟨t,answered⟩ := handleRequestInner_proxy front split resolved proxied traced denied
    refine ⟨_,t,answered,iff_of_true ?_ (.inl rfl)⟩
    rw [buildGuardShortCircuit,insertHeaders_status]
    exact statusFromU16_forbidden (guardLoop_denied denied)
  | upgrade front target denied =>
    obtain ⟨t,answered⟩ := handleRequestInner_upgrade front target denied
    exact ⟨_,t,answered,iff_of_true (statusFromU16_forbidden (guardLoop_denied denied)) (.inr (.inl rfl))⟩

end Surfaces

/-- A guard that denies with a status. -/
def denyingGuard (status : Nat) : Dsl :=
  oneStepGuard (.returnStep { returnValue := .string "no", status := some (.ofNat status) })

/-- One public route behind it. -/
def deniedTree (status : Nat) : Tree where
  dsls := (∅ : HttpDsls).insert "app" ((∅ : StringMap (StringMap Dsl)).insert "GET"
    ((∅ : StringMap Dsl).insert "GET/jobs" (oneStepGuard (.log { log := .null }))))
  guards := (∅ : GuardDsls).insert "app" ((∅ : StringMap Dsl).insert "*" (denyingGuard status))

theorem denial_arrives_forbidden : ∃ response t,
    handleRequestInner {} (engine {} 1).run (deniedTree 403) jobsRequest {} = (.ok response,t) ∧
      400 ≤ response.status := by
  have denied : GuardDenies {} (engine {} 1).run (deniedTree 403) jobsRequest {} .executeDsl
      { value := some (.string "no"), status := 403 } :=
    .http rfl rfl rfl rfl rfl rfl rfl rfl
  obtain ⟨response,t,answered,arrives⟩ :=
    denial_arrives {} (engine {} 1).run (deniedTree 403) jobsRequest {} .executeDsl _ denied
  exact ⟨response,t,answered,arrives.mpr (.inr (.inr (by decide)))⟩

/-- A guard that denies with 1000 is answered with 200. -/
theorem denial_answered_ok :
    GuardDenies {} (engine {} 1).run (deniedTree 1000) jobsRequest {} .executeDsl
        { value := some (.string "no"), status := 1000 } ∧
      ∃ response t,
        handleRequestInner {} (engine {} 1).run (deniedTree 1000) jobsRequest {} = (.ok response,t) ∧
          response.status = 200 :=
  ⟨.http rfl rfl rfl rfl rfl rfl rfl rfl,_,_,rfl,rfl⟩

end Ruuter
