import Ruuter.Allow
import Ruuter.LongestPrefix
import Ruuter.Nesting
import Ruuter.ReloadReach

/-! What a request can reach. It is answered from one moment's trees for its route and its guards, and its runs
ask the trees of their own moments; the slots it can ask for decide the answer. -/
namespace Ruuter

def LoadedProjects.tree (out : LoadedProjects) : Tree := { dsls := out.http, guards := out.guards }

/-- The DSL that a request is for, with its project and its key. -/
inductive Routed (r : Router) (req : Request) (out : LoadedProjects) (project key : String) (dsl : Dsl) : Prop
  | upgrade : upgradeTarget out.tree req = some (project,key,dsl) → Routed r req out project key dsl
  | route : pathSegments req.path = project :: segments →
      resolveDslWithPathParams out.http project (r.uppercase req.method) ("/".intercalate segments) = some (dsl,key,params) →
      Routed r req out project key dsl

/-- The slots that serving a request can ask for: the keys that its path may stand for, the guards that cover
its route, and what the runs of these and of its DSL ask for. -/
inductive RequestAsks (h : Host) (r : Router) (req : Request) (trees : Nat → LoadedProjects) (moment : Nat) :
    Slot → Prop
  | route (method : String) : pathSegments req.path = project :: segments → key ∈ candidates method segments.reverse →
      RequestAsks h r req trees moment (.route project method key)
  | guard : Routed r req (trees moment) project key dsl → Gates key guardKey →
      RequestAsks h r req trees moment (.guard project guardKey)
  | guardRun : Routed r req (trees moment) project key dsl → Gates key guardKey →
      (trees moment).find (.guard project guardKey) = some gate → RunAsks h trees project gate slot →
      RequestAsks h r req trees moment slot
  | run : Routed r req (trees moment) project key dsl → RunAsks h trees project dsl slot →
      RequestAsks h r req trees moment slot

section Lookup

theorem resolveSegments_of_candidates {first second : StringMap Dsl} {reversed : List String}
    (same : ∀ key ∈ candidates method reversed, first.lookup key = second.lookup key) (stripped : List String) :
    resolveSegments first method reversed stripped = resolveSegments second method reversed stripped := by
  induction reversed generalizing stripped with
  | nil => rfl
  | cons last before ih =>
    have here := same _ List.mem_cons_self
    have later := ih fun key member => same key (List.mem_cons_of_mem _ member)
    simp only [resolveSegments,here,later]

theorem lookup_bucket (out : LoadedProjects) (project method key : String) :
    (bucket out.http project method).lookup key = out.find (.route project method key) := by
  cases listed : out.http.lookup project with
  | none => simp [bucket,LoadedProjects.find,listed]
  | some methods => cases found : methods.lookup method <;> simp [bucket,LoadedProjects.find,listed,found]

theorem resolve_of_find {a b : LoadedProjects}
    (same : ∀ key ∈ candidates method (pathSegments path).reverse,
      a.find (.route project method key) = b.find (.route project method key)) :
    resolveDslWithPathParams a.http project method path = resolveDslWithPathParams b.http project method path := by
  rw [resolve_eq,resolve_eq]
  refine resolveSegments_of_candidates (fun key member => ?_) []
  rw [lookup_bucket,lookup_bucket,same key member]

end Lookup

section Service
variable {r : Router} {req : Request} {run run' : Runner} {tree tree' : Tree} {given : Option String}

/-- The contexts in which a request of a project runs DSLs, from the traceparent that its header map holds. -/
structure Ctx.Serves (project : String) (given : Option String) (ctx : Ctx) : Prop where
  project : ctx.project = project
  traced : ∀ traceparent, given = some traceparent → ctx.traceparent = some traceparent

/-- The same guards stand in front of a route, and they and its DSL do the same. -/
structure SameService (r : Router) (run run' : Runner) (tree tree' : Tree) (given : Option String)
    (project key : String) (dsl : Dsl) : Prop where
  chain : applicableGuards tree'.guards r.guardsMode project key = applicableGuards tree.guards r.guardsMode project key
  guards : ∀ entry ∈ applicableGuards tree.guards r.guardsMode project key, ∀ ctx : Ctx, ctx.Serves project given →
    run' entry.2 ctx = run entry.2 ctx
  target : ∀ ctx : Ctx, ctx.Serves project given → run' dsl ctx = run dsl ctx

theorem SameService.guarded (service : SameService r run run' tree tree' given project key dsl)
    {target target' : M α} {ctx : Ctx}
    (serves : ctx.Serves project given) (later : target' = target) :
    guarded (guardLoop run' ctx skip contract (applicableGuards tree'.guards r.guardsMode project key)) refuse target' =
      guarded (guardLoop run ctx skip contract (applicableGuards tree.guards r.guardsMode project key)) refuse target := by
  have loop : guardLoop run' ctx skip contract _ = guardLoop run ctx skip contract _ :=
    guardLoop_same fun entry member => service.guards entry member ctx serves
  rw [service.chain,loop,later]

theorem runDeclared_same (same : ∀ ctx : Ctx, ctx.Serves project given → run' dsl ctx = run dsl ctx) {ctx : Ctx}
    (serves : ctx.Serves project given) :
    runDeclared run' dsl ctx method traceparent = runDeclared run dsl ctx method traceparent := by
  unfold runDeclared
  split
  · exact same ctx serves
  · exact bind_congr fun view => same _ ⟨serves.project,serves.traced⟩

/-- A traceparent is generated only where none is held. -/
theorem traceparentOf_bind {f g : String → M α}
    (same : ∀ traceparent, (∀ held, given = some held → traceparent = held) →
    f traceparent = g traceparent) : traceparentOf r given >>= f = traceparentOf r given >>= g := by
  cases given with
  | none => exact bind_congr fun traceparent => same traceparent fun held none => by cases none
  | some held => exact same held fun other some => Option.some.inj some

theorem executeDsl_same
    (resolves : resolveDslWithPathParams tree'.dsls project (r.uppercase method) path =
      resolveDslWithPathParams tree.dsls project (r.uppercase method) path)
    (served : ∀ dsl key params, resolveDslWithPathParams tree.dsls project (r.uppercase method) path = some (dsl,key,params) →
      SameService r run run' tree tree' (headers.lookup "traceparent") project key dsl) :
    executeDsl r run' tree' project method path body query headers origin =
      executeDsl r run tree project method path body query headers origin := by
  unfold executeDsl
  dsimp only
  rw [resolves]
  split
  · rfl
  · rename_i dsl key params found
    have service := served dsl key params found
    refine traceparentOf_bind fun traceparent adopted => ?_
    have traced : ∀ held, headers.lookup "traceparent" = some held → some traceparent = some held :=
      fun held lookup => congrArg some (adopted held lookup)
    exact congrArg (isolated ∅) (service.guarded ⟨rfl,traced⟩ (runDeclared_same service.target ⟨rfl,traced⟩))

theorem proxyRoute_same (service : SameService r run run' tree tree' ((dslHeaders r req).lookup "traceparent") project key dsl) :
    proxyRoute r run' tree' req project key params proxy = proxyRoute r run tree req project key params proxy := by
  unfold proxyRoute
  refine traceparentOf_bind fun traceparent adopted => ?_
  exact congrArg (isolated ∅) (service.guarded ⟨rfl,fun held lookup => congrArg some (adopted held lookup)⟩ rfl)

theorem handleWsUpgrade_same (target : upgradeTarget tree' req = upgradeTarget tree req)
    (served : ∀ project key dsl, upgradeTarget tree req = some (project,key,dsl) →
      SameService r run run' tree tree' (req.headersMap.lookup "traceparent") project key dsl) :
    handleWsUpgrade r run' tree' req = handleWsUpgrade r run tree req := by
  unfold handleWsUpgrade
  rw [target]
  split
  · rfl
  · rename_i project key dsl found
    exact congrArg (isolated ∅) ((served project key dsl found).guarded ⟨rfl,fun held lookup => lookup⟩ rfl)

theorem methodsAllowedForPath_same (resolves : ∀ method,
    resolveDslWithPathParams tree'.dsls project method path = resolveDslWithPathParams tree.dsls project method path) :
    methodsAllowedForPath tree' project path = methodsAllowedForPath tree project path := by
  refine List.Perm.eq_of_pairwise ?_ methodsAllowedForPath_sorted methodsAllowedForPath_sorted ?_
  · intro left right _ _ below above
    exact absurd (lt_trans below above) (lt_irrefl left)
  · refine (List.perm_ext_iff_of_nodup ?_ ?_).mpr fun method => ?_
    · exact methodsAllowedForPath_sorted.imp fun below => ne_of_lt below
    · exact methodsAllowedForPath_sorted.imp fun below => ne_of_lt below
    · rw [mem_methodsAllowedForPath,mem_methodsAllowedForPath,resolves method]

theorem routeRequest_same (resolves : ∀ method,
      resolveDslWithPathParams tree'.dsls project method path = resolveDslWithPathParams tree.dsls project method path)
    (served : ∀ dsl key params, resolveDslWithPathParams tree.dsls project (r.uppercase req.method) path = some (dsl,key,params) →
      SameService r run run' tree tree' ((dslHeaders r req).lookup "traceparent") project key dsl) :
    routeRequest r run' tree' req project path = routeRequest r run tree req project path := by
  have dispatched : dslRoute r run' tree' req project path = dslRoute r run tree req project path := by
    unfold dslRoute
    split
    · rfl
    · dsimp only
      rw [executeDsl_same (resolves _) served]
      refine bind_congr fun outcome => bind_congr fun traceparent => ?_
      have answer : outcomeResponse r tree' project path outcome = outcomeResponse r tree project path outcome := by
        unfold outcomeResponse notFoundResponse
        rw [methodsAllowedForPath_same resolves]
      rw [answer]
  unfold routeRequest
  rw [resolves]
  split
  · exact dispatched
  · rename_i dsl key params found
    split
    · exact proxyRoute_same (served dsl key params found)
    · rw [dispatched]

end Service

section Requests
variable {h : Host} {client : HttpClient} {r : Router} {req : Request} {old new : Nat → LoadedProjects} {moment : Nat}

theorem whole_candidate (method : String) (nonempty : segments ≠ []) :
    routeKey method segments ∈ candidates method segments.reverse := by
  cases reversed : segments.reverse with
  | nil => exact absurd (List.reverse_eq_nil_iff.mp reversed) nonempty
  | cons last before =>
    have whole : (last :: before).reverse = segments := by rw [← reversed,List.reverse_reverse]
    exact whole ▸ List.mem_cons_self

theorem service_outside_reach (external : client.selfOrigins = [])
    (still : ∀ slot, RequestAsks h r req old moment slot → ∀ now, (new now).find slot = (old now).find slot)
    (tree tree' : Tree) (fuel : Nat) (goes : Routed r req (old moment) project key dsl) :
    SameService r (routed (h.serving old) client r tree fuel).run (routed (h.serving new) client r tree' fuel).run
      (old moment).tree (new moment).tree given project key dsl where
  chain := applicableGuards_of_find r.guardsMode fun _ gates => still _ (.guard goes gates) moment
  guards entry member ctx serves := by
    obtain ⟨gates,found⟩ := mem_applicableGuards_find member
    exact run_outside_reach external (fun slot asks => still slot (.guardRun goes gates found asks)) tree tree' fuel
      ctx serves.project
  target ctx serves :=
    run_outside_reach external (fun slot asks => still slot (.run goes asks)) tree tree' fuel ctx serves.project

/-- Reloads that leave the slots that a request without self-calls can ask for as they are do not change how it
is served, whenever they happen: its answer, its events and the state it leaves are those without them. -/
theorem request_outside_reach (h : Host) (client : HttpClient) (external : client.selfOrigins = []) (r : Router)
    (req : Request) (old new : Nat → LoadedProjects) (moment fuel : Nat)
    (still : ∀ slot, RequestAsks h r req old moment slot → ∀ now, (new now).find slot = (old now).find slot) (s : St) :
    handleRequestInner r (routed (h.serving new) client r (new moment).tree fuel).run (new moment).tree req s =
      handleRequestInner r (routed (h.serving old) client r (old moment).tree fuel).run (old moment).tree req s := by
  have target : upgradeTarget (new moment).tree req = upgradeTarget (old moment).tree req := by
    unfold upgradeTarget
    split
    · rename_i project segment rest split
      have slot := still _ (.route "WS" split (whole_candidate "WS" (List.cons_ne_nil segment rest))) moment
      exact congrArg (Option.map _) slot
    · rfl
  refine congrFun ?_ s
  unfold handleRequestInner
  split
  · rfl
  · exact handleWsUpgrade_same target fun project key dsl found =>
      service_outside_reach external still _ _ fuel (.upgrade found)
  · split
    · rfl
    · rename_i project segments split
      have clean : pathSegments ("/".intercalate segments) = segments := pathSegments_intercalate fun segment member =>
        mem_pathSegments (split ▸ List.mem_cons_of_mem project member)
      refine routeRequest_same (fun method => resolve_of_find fun key member => ?_) fun dsl key params found =>
        service_outside_reach external still _ _ fuel (.route split found)
      rw [clean] at member
      exact still _ (.route method split member) moment

/-- The menu, and the menu with a draft that no step names. -/
def menuProjects (draft : Bool) : LoadedProjects where
  http :=
    let dsls := ((∅ : StringMap Dsl).insert "GET/item" itemDsl).insert "GET/menu" menuDsl
    (∅ : HttpDsls).insert "app" ((∅ : StringMap (StringMap Dsl)).insert "GET"
      (if draft then dsls.insert "GET/draft" itemDsl else dsls))

theorem find_draft (apart : slot ≠ .route "app" "GET" "GET/draft") (draft : Bool) :
    (menuProjects draft).find slot = (menuProjects false).find slot := by
  cases draft with
  | false => rfl
  | true =>
    cases slot with
    | guard => rfl
    | trigger => rfl
    | route project method key =>
      by_cases here : project = "app"
      · by_cases get : method = "GET"
        · have other : key ≠ "GET/draft" := by
            rintro rfl
            exact apart (by rw [here,get])
          subst here get
          exact AList.lookup_insert_ne other
        · subst here
          simp only [LoadedProjects.find,menuProjects,AList.lookup_insert,Option.bind_some,AList.lookup_insert_ne get]
      · simp only [LoadedProjects.find,menuProjects,AList.lookup_insert_ne here]

theorem menu_members (member : dsl ∈ menuTree.members) : dsl = menuDsl ∨ dsl = itemDsl :=
  List.mem_pair.mp member

theorem menu_asks (dsl : Dsl) (listed : dsl = menuDsl ∨ dsl = itemDsl) (asks : dsl.Asks {} project slot) :
    slot ≠ .route "app" "GET" "GET/draft" := by
  obtain ⟨name,step,held,inner,within,asks⟩ := asks
  have inside := entry_mem held
  rintro rfl
  rcases listed with rfl | rfl
  · cases List.mem_singleton.mp inside
    cases List.mem_singleton.mp within
    obtain ⟨_,_,key⟩ := asks
    exact absurd key (by decide +kernel)
  · cases List.mem_singleton.mp inside
    cases List.mem_singleton.mp within
    exact asks

theorem menu_called (listed : dsl = menuDsl ∨ dsl = itemDsl)
    (called : Called {} (fun _ => menuProjects false) project dsl p caller) : caller = menuDsl ∨ caller = itemDsl := by
  induction called with
  | start => exact listed
  | @call p caller slot now callee _ asks found ih =>
    cases slot with
    | route project method key => exact menu_members (lookupDsl_mem (show lookupDsl menuTree.dsls project method key = some callee from found))
    | guard => cases found
    | trigger => cases found

theorem menu_routed (routed : Routed {} menuRequest (menuProjects false) project key dsl) :
    dsl = menuDsl ∨ dsl = itemDsl := by
  cases routed with
  | upgrade found =>
    unfold upgradeTarget at found
    split at found
    · obtain ⟨held,target,same⟩ := Option.map_eq_some_iff.mp found
      cases same
      exact menu_members (lookupDsl_mem (show lookupDsl menuTree.dsls _ _ _ = some dsl from target))
    · cases found
  | route _ found => exact menu_members (resolve_mem (show resolveDslWithPathParams menuTree.dsls _ _ _ = _ from found))

theorem menu_request_asks (asks : RequestAsks {} {} menuRequest (fun _ => menuProjects false) 0 slot) :
    slot ≠ .route "app" "GET" "GET/draft" := by
  cases asks with
  | @route project key segments method split member =>
    have parts : pathSegments menuRequest.path = ["app","menu"] := by decide +kernel
    rw [parts] at split
    cases split
    rintro same
    cases same
    exact absurd (List.mem_singleton.mp member) (by decide)
  | guard => exact fun same => by cases same
  | guardRun _ _ found _ => cases found
  | run routed asks =>
    obtain ⟨p,caller,called,asks⟩ := asks
    exact menu_asks caller (menu_called (menu_routed routed) called) asks

/-- A draft that appears in the middle of a request. -/
theorem request_outside_reach_draft :
    handleRequestInner {} (routed (Host.serving {} fun now => menuProjects (3 ≤ now)) {} {} (menuProjects false).tree 5).run
        (menuProjects false).tree menuRequest {} =
      handleRequestInner {} (routed (Host.serving {} fun _ => menuProjects false) {} {} (menuProjects false).tree 5).run
        (menuProjects false).tree menuRequest {} :=
  request_outside_reach {} {} rfl {} menuRequest (fun _ => menuProjects false) (fun now => menuProjects (3 ≤ now)) 0 5
    (fun _ asks now => find_draft (menu_request_asks asks) (3 ≤ now)) {}

end Requests

end Ruuter
