import Mathlib.Algebra.Order.BigOperators.Group.List
import Mathlib.Algebra.Order.Group.Nat
import Ruuter.GuardStack
import Ruuter.StepBudget

/-! How many steps one request can dispatch. Every run has its own round budget, so the total
depends on how deep runs nest: through `template` steps, self-calls and the default exception
DSL. Nothing in the engine bounds the depth, nor the number of self-calls of a `parallel_http`
step; the total is bounded as long as no DSL is run inside a run of itself and those calls stay
below a number fixed beforehand. -/
namespace Ruuter

def Alarm.ring (alarm : Alarm) : M α := fun s => (.error (alarm s).1,(alarm s).2)

section Fenced
variable (h : Host) (client : HttpClient) (r : Router) (tree : Tree) (alarm : Alarm) (peers : Nat)

/-- The calls of a `parallel_http` step behind the fence. -/
def fencedAll (run : Runner) (requests : List Outbound) : M (List (Except RuuterError HttpResponse)) :=
  if peers < client.selfCalls requests then alarm.ring
  else Eff.collect (requestWithCt h client r run tree) requests

open Classical in
/-- The engine with a fence around each DSL: an alarm goes off when a DSL is to be run inside
a run of itself, and when a `parallel_http` step is to make more than `peers` self-calls. -/
noncomputable def fenced : (fuel : Nat) → (active : List Dsl) → Engine
  | 0, _ => engine h 0
  | fuel + 1, active =>
    { run := fun dsl ctx =>
        if dsl ∈ active then alarm.ring
        else
          let nested := fenced fuel (dsl :: active)
          RunEnd.result <$> runToEnd h (routedStep h (requestWithCt h client r nested.run tree)
            (fencedAll h client r tree alarm peers nested.run) nested) dsl ctx
      step :=
        let nested := fenced fuel active
        routedStep h (requestWithCt h client r nested.run tree)
          (fencedAll h client r tree alarm peers nested.run) nested }

end Fenced

/-- Serving a request from a state, no DSL is run inside a run of itself, and no `parallel_http` step
makes more than `peers` self-calls: whatever the alarm, the fence makes no difference. -/
def NeverAlarms (h : Host) (client : HttpClient) (r : Router) (tree : Tree) (peers : Nat) (req : Request)
    (s : St) : Prop :=
  ∀ alarm fuel, handleRequestInner r (fenced h client r tree alarm peers fuel []).run tree req s =
    handleRequestInner r (routed h client r tree fuel).run tree req s

/-- The alarm that ends a run and nothing else. -/
def stopAlarm : Alarm := fun s => (.outOfFuel,s)

section Fence
variable {h : Host} {client : HttpClient} {r : Router} {tree : Tree} {peers : Nat}

theorem fencedAll_spends {callable : Dsl → Prop} {engine other : Engine}
    (budget : Budget h client tree callable engine other depth peers n)
    (calls : client.selfOrigins ≠ [] → ∀ dsl ∈ tree.members, callable dsl) (requests : List Outbound) :
    Eff.Spends dispatched (peers * ((tree.guardCount + 1) * n))
      (fencedAll h client r tree stopAlarm peers engine.run requests)
      (fencedAll h client r tree stopAlarm peers other.run requests) := by
  unfold fencedAll
  split
  · exact fun _ => ⟨rfl,Nat.le_add_right _ _⟩
  · rename_i few
    exact collect_budget budget calls (Nat.le_of_not_lt few)

/-- Behind the fence runs nest at most as deep as there are DSLs outside the active runs, and
fuel for that depth is as good as any more. -/
theorem fenced_budget (serves : Serves h tree) (fuel fuel' : Nat) (active : List Dsl)
    (distinct : active.Nodup) (inside : active ⊆ tree.members) (depth : Nat)
    (enough : fuel = fuel' ∨ depth + tree.fuelFor (tree.members.length - active.length) ≤ min fuel fuel') :
    Budget h client tree (fun dsl => dsl ∈ tree.members) (fenced h client r tree stopAlarm peers fuel active)
      (fenced h client r tree stopAlarm peers fuel' active) depth peers
      (tree.runBound peers h.maxIterations.toNat (tree.members.length - active.length)) := by
  induction fuel generalizing fuel' active depth with
  | zero =>
    have bottom : fuel' = 0 := by
      unfold Tree.fuelFor at enough
      omega
    subst bottom
    exact ⟨serves,fun _ _ _ => Eff.spends_throw _,fun _ _ _ => Eff.spends_throw _⟩
  | succ fuel ih =>
    obtain ⟨fuel',rfl⟩ : ∃ less, fuel' = less + 1 := by
      refine Nat.exists_eq_add_one.mpr ?_
      unfold Tree.fuelFor at enough
      omega
    refine ⟨serves,?_,?_⟩
    · intro dsl member ctx
      by_cases outside : dsl ∈ active
      · simp only [fenced]
        rw [if_pos outside,if_pos outside]
        exact fun _ => ⟨rfl,Nat.le_add_right _ _⟩
      · simp only [fenced]
        rw [if_neg outside,if_neg outside]
        -- A run outside the active ones leaves less room below it: the measure that ends the nesting.
        have deeper : (dsl :: active).Nodup := List.nodup_cons.mpr ⟨outside,distinct⟩
        have within : dsl :: active ⊆ tree.members := List.cons_subset.mpr ⟨member,inside⟩
        have room : (dsl :: active).length ≤ tree.members.length :=
          (List.subperm_of_subset deeper within).length_le
        have left : tree.members.length - active.length =
            tree.members.length - (dsl :: active).length + 1 := by
          simp only [List.length_cons] at room ⊢
          omega
        rw [left,Tree.fuelFor,Nat.succ_mul] at enough
        have budget := ih fuel' (dsl :: active) deeper within (bodyDepth tree.steps) (by
          unfold Tree.fuelFor
          omega)
        rw [left,Tree.runBound]
        exact run_spends budget (fencedAll_spends budget) member fun _ _ _ inner _ =>
          callsDirectly_members inner
    · intro step ctx fits
      have positive := step.depth_pos
      have shallow := fits.shallow
      have budget := ih fuel' active distinct inside (depth - 1) (by omega)
      exact routedStep_spends budget (requestWithCt_budget budget) (fencedAll_spends budget) step
        ⟨fits.calls,by omega⟩

/-- A step that can make self-calls has any DSL run, its own as well. -/
theorem Ranked.external {rank : Dsl → Nat} {limit : Nat}
    (low : client.selfOrigins ≠ [] → ∃ dsl ∈ tree.members, limit ≤ rank dsl)
    (calls : client.selfOrigins ≠ [] → ∀ dsl ∈ tree.members, dsl ∈ tree.members ∧ rank dsl < limit) :
    client.selfOrigins = [] := by
  by_contra origins
  obtain ⟨dsl,member,above⟩ := low origins
  have below := (calls origins dsl member).2
  omega

/-- Where self-calls would break the ranks there are none, and the fence is not met. -/
theorem Ranked.fencedAll_spends {rank : Dsl → Nat} {limit depth n : Nat} {engine other : Engine}
    (low : client.selfOrigins ≠ [] → ∃ dsl ∈ tree.members, limit ≤ rank dsl)
    (budget : Budget h client tree (fun dsl => dsl ∈ tree.members ∧ rank dsl < limit) engine other depth peers n)
    (calls : client.selfOrigins ≠ [] → ∀ dsl ∈ tree.members, dsl ∈ tree.members ∧ rank dsl < limit)
    (requests : List Outbound) :
    Eff.Spends dispatched (peers * ((tree.guardCount + 1) * n))
      (Eff.collect (requestWithCt h client r engine.run tree) requests)
      (fencedAll h client r tree alarm peers other.run requests) := by
  have external := Ranked.external low calls
  have none : client.selfCalls requests = 0 := by
    simp [HttpClient.selfCalls,isSelf_external external]
  rw [fencedAll,if_neg (by omega)]
  exact collect_budget budget calls (by omega)

/-- In a ranked tree the fence is never met: the active runs are of higher rank than what is
called, and what makes self-calls has no rank. -/
theorem ranked_spends (serves : Serves h tree) (ranked : Ranked h client tree rank) (alarm : Alarm)
    (peers fuel : Nat) (active : List Dsl) (limit : Nat) (above : ∀ dsl ∈ active, limit ≤ rank dsl) :
    (∀ dsl, dsl ∈ tree.members ∧ rank dsl < limit → ∀ ctx,
      Eff.Spends dispatched (tree.runBound peers h.maxIterations.toNat limit)
        ((routed h client r tree fuel).run dsl ctx)
        ((fenced h client r tree alarm peers fuel active).run dsl ctx)) ∧
    ((client.selfOrigins ≠ [] → ∃ dsl ∈ tree.members, limit ≤ rank dsl) → ∀ depth,
      Budget h client tree (fun dsl => dsl ∈ tree.members ∧ rank dsl < limit) (routed h client r tree fuel)
        (fenced h client r tree alarm peers fuel active) depth peers
        (tree.runBound peers h.maxIterations.toNat limit)) := by
  induction fuel generalizing active limit with
  | zero =>
    exact ⟨fun _ _ _ => Eff.spends_throw _,
      fun _ _ => ⟨serves,fun _ _ _ => Eff.spends_throw _,fun _ _ _ => Eff.spends_throw _⟩⟩
  | succ fuel ih =>
    have runs : ∀ dsl, dsl ∈ tree.members ∧ rank dsl < limit → ∀ ctx,
        Eff.Spends dispatched (tree.runBound peers h.maxIterations.toNat limit)
          ((routed h client r tree (fuel + 1)).run dsl ctx)
          ((fenced h client r tree alarm peers (fuel + 1) active).run dsl ctx) := by
      rintro dsl ⟨member,below⟩ ctx
      have outside : dsl ∉ active := by
        intro met
        have := above dsl met
        omega
      simp only [fenced]
      rw [if_neg outside]
      -- What this run calls is below its own rank, and so below all active runs again.
      have low : client.selfOrigins ≠ [] → ∃ other ∈ tree.members, rank dsl ≤ rank other :=
        fun _ => ⟨dsl,member,Nat.le_refl _⟩
      have budget := (ih (dsl :: active) (rank dsl) (by
        intro other met
        rcases List.mem_cons.mp met with rfl | met
        · exact Nat.le_refl _
        · have := above other met
          omega)).2 low (bodyDepth tree.steps)
      have price : tree.runBound peers h.maxIterations.toNat (rank dsl + 1) ≤
          tree.runBound peers h.maxIterations.toNat limit := runBound_mono below
      refine Eff.Spends.mono (run_spends budget (Ranked.fencedAll_spends low budget) member ?_) price
      intro name step found inner within
      exact callsDirectly_and (callsDirectly_members inner) (ranked dsl member name step found inner within)
    refine ⟨runs,fun low depth => ⟨serves,runs,?_⟩⟩
    intro step ctx fits
    have positive := step.depth_pos
    have shallow := fits.shallow
    have budget := (ih active limit above).2 low (depth - 1)
    exact routedStep_spends budget (requestWithCt_budget budget)
      (Ranked.fencedAll_spends low budget) step
      ⟨fits.calls,by omega⟩

/-- A tree without cycles never runs a DSL inside a run of itself, whatever the request. -/
theorem ranked_neverAlarms (serves : Serves h tree) (ranked : Ranked h client tree rank) (req : Request)
    (s : St) : NeverAlarms h client r tree peers req s := by
  intro alarm fuel
  have below : ∀ dsl ∈ tree.members, rank dsl < (tree.members.map rank).sum + 1 := by
    intro dsl member
    have := List.le_sum_of_mem (List.mem_map.mpr ⟨dsl,member,rfl⟩ : rank dsl ∈ tree.members.map rank)
    omega
  have runs := (ranked_spends (r := r) serves ranked alarm peers fuel [] ((tree.members.map rank).sum + 1)
    (fun _ met => absurd met List.not_mem_nil)).1
  exact (handleRequestInner_spends (fun dsl member => runs dsl ⟨member,below dsl member⟩) req s).1

/-- A request that never runs a DSL inside a run of itself dispatches no more steps than the
tree and the cap allow, and it is served to its end: fuel for runs nested as deep as there are
DSLs is as good as any more. -/
theorem nesting_bounded (serves : Serves h tree) (never : NeverAlarms h client r tree peers req s) :
    (∀ fuel, dispatches (handleRequestInner r (routed h client r tree fuel).run tree req s).2.trace ≤
      dispatches s.trace + tree.requestBound peers h.maxIterations) ∧
    (∀ fuel, tree.fuelFor tree.members.length ≤ fuel →
      handleRequestInner r (routed h client r tree fuel).run tree req s =
        handleRequestInner r (routed h client r tree (tree.fuelFor tree.members.length)).run tree req s) := by
  have served : ∀ fuel fuel', fuel = fuel' ∨ tree.fuelFor tree.members.length ≤ min fuel fuel' →
      Eff.Spends dispatched (tree.requestBound peers h.maxIterations)
        (handleRequestInner r (fenced h client r tree stopAlarm peers fuel []).run tree req)
        (handleRequestInner r (fenced h client r tree stopAlarm peers fuel' []).run tree req) := by
    intro fuel fuel' enough
    refine handleRequestInner_spends (fenced_budget serves fuel fuel' [] List.nodup_nil
      (List.nil_subset _) 0 ?_).run req
    simpa using enough
  constructor
  · intro fuel
    have spent := (served fuel fuel (.inl rfl) s).2
    rwa [never stopAlarm fuel] at spent
  · intro fuel enough
    have same := (served (tree.fuelFor tree.members.length) fuel (.inr (by omega)) s).1
    rwa [never stopAlarm fuel,never stopAlarm _] at same

end Fence

/-- A route whose one step is a `template` step to the route itself. -/
def loopDsl : Dsl where
  steps := (∅ : StringMap DslStep).insert "again" (.template { template := "loop" })

def loopTree : Tree where
  dsls := (∅ : HttpDsls).insert "app"
    ((∅ : StringMap (StringMap Dsl)).insert "GET" ((∅ : StringMap Dsl).insert "GET/loop" loopDsl))

def loopHost : Host where
  loadDsls := fun _ => some loopTree.dsls

def loopRequest : Request where
  method := "GET"
  path := "/app/loop"

/-- The engine dispatches `n` steps and fails, whenever it runs the loop. -/
def Descends (run : Runner) (n : Nat) : Prop :=
  ∀ ctx s, ctx.project = "app" → ∃ e t, run loopDsl ctx s = (.error e,t) ∧ dispatched t = dispatched s + n

theorem loop_template {engine : Engine} (descends : Descends engine.run n) (inside : ctx.project = "app") :
    ∃ e t, executeTemplate loopHost engine ctx { template := "loop" } s = (.error e,t) ∧
      dispatched t = dispatched s + n := by
  have found : lookupDsl loopTree.dsls "app" "GET" "GET/loop" = some loopDsl := rfl
  have method : loopHost.uppercase "GET" = "GET" := by decide +kernel
  have key : "GET" ++ "/" ++ Text.trimMatches "loop" '/' = "GET/loop" := by decide +kernel
  obtain ⟨e,t,eq,count⟩ := descends
    { requestOrigin := ctx.requestOrigin, project := "app", traceparent := ctx.traceparent.or none }
    { s with vars := ∅, clock := s.clock + 1 + 1 } rfl
  refine ⟨e,{ t with vars := s.vars },?_,count⟩
  have loaded : consult loopHost.loadDsls s = (.ok (some loopTree.dsls),{ s with clock := s.clock + 1 }) := rfl
  unfold executeTemplate
  refine (Eff.bind_eq_ok loaded).trans ?_
  dsimp only [Option.getD_none]
  rw [inside,method,key,found]
  show (inChild (engine.run loopDsl _) >>= _) _ = _
  exact Eff.bind_eq_error (Eff.bracket_eq eq)

/-- A run of the loop fails as its one step does. -/
theorem loop_run {execute : DslStep → Ctx → M StepResult}
    (failed : execute (.template { template := "loop" }) ctx
      { s with trace := s.trace ++ [.entered loopDsl] } = (.error e,t)) :
    (RunEnd.result <$> runToEnd loopHost execute loopDsl ctx) s =
      (.error (.stepContext "again" "template" ctx.project e),t) := by
  have performed : perform execute ctx "again" (.template { template := "loop" })
      { s with trace := s.trace ++ [.entered loopDsl] } =
        (.error (.stepContext "again" "template" ctx.project e),t) := by
    show Eff.mapError _ _ _ = _
    simp only [Eff.mapError,failed]
    rfl
  have looped : runLoop loopHost execute loopDsl ctx loopHost.maxIterations.toNat 0 ∅
      { s with trace := s.trace ++ [.entered loopDsl] } =
        (.error (.stepContext "again" "template" ctx.project e),t) := by
    have rounds : loopHost.maxIterations.toNat = 9999 + 1 := by decide
    rw [rounds]
    refine Eff.bind_eq_error ?_
    show (sleepFor none >>= _) _ = _
    exact (Eff.bind_eq_ok rfl).trans (Eff.bind_eq_error performed)
  exact Eff.bind_eq_error looped

/-- One level of nesting, one step: nothing but the fuel ends the loop. -/
theorem routed_descends (client : HttpClient) (r : Router) (fuel : Nat) :
    Descends (routed loopHost client r loopTree fuel).run fuel := by
  induction fuel with
  | zero => exact fun _ s _ => ⟨.outOfFuel,s,rfl,rfl⟩
  | succ fuel ih =>
    intro ctx s inside
    let entered : St := { s with trace := s.trace ++ [.entered loopDsl] }
    let dispatching : St :=
      { s with trace := entered.trace ++ [.dispatched (.template { template := "loop" })] }
    obtain ⟨e,t,eq,count⟩ : ∃ e t, executeTemplate loopHost _ ctx { template := "loop" } dispatching =
      (.error e,t) ∧ dispatched t = dispatched dispatching + fuel := loop_template ih inside
    have one : dispatched dispatching = dispatched s + 1 := by
      simp [dispatching,entered,dispatched,dispatches,List.countP_append]
    exact ⟨_,t,loop_run eq,by omega⟩

theorem loop_request {run : Runner} (descends : Descends run n) :
    dispatches (handleRequestInner {} run loopTree loopRequest {}).2.trace = n := by
  obtain ⟨e,t,eq,count⟩ := descends
    { requestQuery := withPathParams ∅ []
      requestHeaders := (∅ : StringMap String).insert "traceparent" ""
      requestOrigin := "unknown"
      project := "app"
      traceparent := some "" } { clock := 1 } rfl
  have outcome : executeDsl {} run loopTree "app" "GET" "loop" ∅ ∅ ∅ "unknown" {} =
      (.error e,{ t with vars := ∅, guardStack := [] }) := by
    show (consult (fun _ => "") >>= _) _ = _
    exact (Eff.bind_eq_ok rfl).trans (Eff.bracket_eq eq)
  have served : handleRequestInner {} run loopTree loopRequest {} =
      dslRoute {} run loopTree loopRequest "app" "loop" {} := rfl
  obtain ⟨response,answered⟩ : ∃ response, dslRoute {} run loopTree loopRequest "app" "loop" {} =
      (.ok response,{ t with vars := ∅, guardStack := [], clock := t.clock + 1 }) :=
    ⟨_,(Eff.bind_eq_ok (Eff.attempt_eq outcome)).trans rfl⟩
  rw [served,answered]
  simpa [dispatched,dispatches] using count

/-- No bound holds for the loop: every run of it is given rounds of its own, and starts another. -/
theorem loop_unbounded : ¬∃ bound, ∀ fuel,
    dispatches (handleRequestInner {} (routed loopHost {} {} loopTree fuel).run loopTree loopRequest
      {}).2.trace ≤ bound := by
  rintro ⟨bound,bounded⟩
  have reached := bounded (bound + 1)
  rw [loop_request (routed_descends {} {} (bound + 1))] at reached
  omega

def itemDsl : Dsl where
  steps := (∅ : StringMap DslStep).insert "done" (.returnStep { returnValue := .string "soup" })

/-- A route that calls another by a `template` step. -/
def menuDsl : Dsl where
  steps := (∅ : StringMap DslStep).insert "fetch" (.template { template := "item", result := some "item" })

def menuTree : Tree where
  dsls := (∅ : HttpDsls).insert "app" ((∅ : StringMap (StringMap Dsl)).insert "GET"
    (((∅ : StringMap Dsl).insert "GET/item" itemDsl).insert "GET/menu" menuDsl))

def menuHost : Host where
  loadDsls := fun _ => some menuTree.dsls

def menuRequest : Request where
  method := "GET"
  path := "/app/menu"

theorem menu_target (found : lookupDsl menuTree.dsls project "GET" "GET/item" = some dsl) :
    dsl = itemDsl := by
  by_cases inside : project = "app"
  · subst inside
    cases found
    rfl
  · have elsewhere : menuTree.dsls.lookup project = none :=
      (AList.lookup_insert_ne inside).trans (AList.lookup_empty _)
    rw [lookupDsl,elsewhere] at found
    cases found

theorem menu_ranked : Ranked menuHost {} menuTree fun dsl => dsl.stepNames.count "fetch" := by
  have key : menuHost.uppercase "GET" ++ "/" ++ Text.trimMatches "item" '/' = "GET/item" := by decide +kernel
  have members : menuTree.members = [menuDsl,itemDsl] := rfl
  intro dsl member name step found inner within
  have listed := entry_mem found
  rw [members] at member
  rcases List.mem_pair.mp member with rfl | rfl
  · cases List.mem_singleton.mp listed
    cases List.mem_singleton.mp within
    intro project
    constructor
    · intro target called
      have method : menuHost.uppercase "GET" = "GET" := by decide +kernel
      dsimp only [Option.getD_none] at called
      rw [key,method] at called
      rw [menu_target called]
      decide +kernel
    · exact fun _ guard => absurd guard List.not_mem_nil
  · cases List.mem_singleton.mp listed
    cases List.mem_singleton.mp within
    trivial

/-- The menu is served in two runs, one inside the other. -/
theorem menu_bounded :
    NeverAlarms menuHost {} {} menuTree 0 menuRequest {} ∧
    (∀ fuel, dispatches (handleRequestInner {} (routed menuHost {} {} menuTree fuel).run menuTree menuRequest
      {}).2.trace ≤ menuTree.requestBound 0 menuHost.maxIterations) ∧
    (∀ fuel, 5 ≤ fuel →
      handleRequestInner {} (routed menuHost {} {} menuTree fuel).run menuTree menuRequest {} =
        handleRequestInner {} (routed menuHost {} {} menuTree 5).run menuTree menuRequest {}) := by
  have serves : Serves menuHost menuTree := ⟨fun _ => rfl,fun _ => rfl⟩
  have never : NeverAlarms menuHost {} {} menuTree 0 menuRequest {} :=
    ranked_neverAlarms serves menu_ranked menuRequest {}
  obtain ⟨bounded,settled⟩ := nesting_bounded serves never
  exact ⟨never,fun fuel => (bounded fuel).trans (by simp [dispatches]),settled⟩

end Ruuter
