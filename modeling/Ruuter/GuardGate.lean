import Ruuter.GuardCoverage
import Ruuter.Surfaces

/-! The reports on unguarded routes: `dsl-lint --require-guard` (`src/bin/dsl_lint.rs`) and
`/_/unguarded` (`src/router/mod.rs`), and what a clean report promises at run time. -/
namespace Ruuter

def RouteAudit.isUnguarded (route : RouteAudit) : Bool := route.guards.isEmpty

namespace Lint

def noGuardMessage : String :=
  "no applicable guard — add a project-level, method-scoped, or per-endpoint guard, " ++
    "or drop --require-guard for this route"

/-- `run_require_guard_audit`: the errors it adds to the report, with the paths they stand under. The
mode of the audit is the default one. -/
def runRequireGuardAudit (loader : DslLoader) (root : Listing) : List (String × String) :=
  match loader.loadEverything root with
  | .error e => [(loader.configPath,"--require-guard: DSL load failed, cannot audit: " ++ e.text)]
  | .ok out =>
    ((auditAllRoutes out.http out.guards .stack).filter (·.isUnguarded)).map fun route =>
      (route.project ++ "/" ++ route.dslKey,noGuardMessage)

end Lint

variable {guards : GuardDsls} {project dslKey : String} {mode : GuardMode}

/-- A route is left alone by the project guard and by all others, in either mode. -/
theorem resolveGuardKeys_eq_nil {projectGuards : StringMap Dsl} :
    resolveGuardKeys projectGuards dslKey mode = [] ↔
      projectGuardKey ∉ projectGuards ∧ ∀ key, ¬Scoped projectGuards dslKey key := by
  have chain := chain_resolveGuardKeys projectGuards dslKey mode
  by_cases overriding : ∃ key, Overriding projectGuards dslKey key
  · obtain ⟨key,longest,keys⟩ := chain.override overriding
    rw [keys]
    refine iff_of_false (List.cons_ne_nil _ _) ?_
    rintro ⟨-,none⟩
    exact none key longest.1.1
  · have plain : ∀ key, ¬Overriding projectGuards dslKey key := not_exists.mp overriding
    have split : ∃ matched, resolveGuardKeys projectGuards dslKey mode =
        (if projectGuardKey ∈ projectGuards then [projectGuardKey] else []) ++ matched ∧
          (matched = [] ↔ ∀ key, ¬Scoped projectGuards dslKey key) := by
      cases mode with
      | stack =>
        obtain ⟨matched,keys,covers,-⟩ := chain.stack plain rfl
        refine ⟨matched,keys,?_⟩
        rw [List.eq_nil_iff_forall_not_mem]
        exact forall_congr' fun key => not_congr (covers key)
      | closestOnly =>
        obtain ⟨matched,keys,⟨none,rfl⟩ | ⟨key,longest,rfl⟩⟩ := chain.closestOnly plain rfl
        · exact ⟨[],keys,iff_of_true rfl none⟩
        · exact ⟨[key],keys,iff_of_false (List.cons_ne_nil _ _) fun none => none key longest.1⟩
    obtain ⟨matched,keys,covers⟩ := split
    rw [keys,List.append_eq_nil_iff,covers]
    refine and_congr_left' ?_
    split <;> simp_all

/-- Whether a route has a guard does not depend on the mode. -/
theorem guardKeysForDsl_mode (other : GuardMode) :
    guardKeysForDsl project dslKey guards mode = [] ↔ guardKeysForDsl project dslKey guards other = [] := by
  rw [guardKeysForDsl_eq,guardKeysForDsl_eq,resolveGuardKeys_eq_nil,resolveGuardKeys_eq_nil]

theorem applicableGuards_eq_nil :
    applicableGuards guards mode project dslKey = [] ↔ guardKeysForDsl project dslKey guards .stack = [] := by
  rw [← List.map_eq_nil_iff (f := Prod.fst),applicableGuards_keys]
  exact guardKeysForDsl_mode .stack

/-- On a surface the target of a route is reached only behind a guard: one that admits the request as it
came in, or, in front of the target of a `template` step, one that is running. -/
def Gated (surface : Surface) (chain : List (String × Dsl)) : Prop :=
  ∀ run, Balanced run → ∀ (ctx : Ctx) (method : String) (s : St) (α : Type) (refuse : Refusal → M α),
    Reached (guarded (surface.guards run ctx method chain) refuse) (surface.start s) →
    ∃ entry ∈ chain, isGuardOnStack (surface.start s) entry.1 = true ∨
      ∃ result u, inFrame entry.1 (run entry.2 ctx) (surface.start s) = (.ok result,u) ∧ result.status < 400

/-- A guard loop, on whichever surface. -/
theorem surface_loop (surface : Surface) (run : Runner) (ctx : Ctx) (method : String)
    (chain : List (String × Dsl)) : ∃ skip contract,
      surface.guards run ctx method chain = guardLoop run ctx skip contract chain := by
  cases surface <;> exact ⟨_,_,rfl⟩

theorem gated_iff (surface : Surface) (chain : List (String × Dsl)) : Gated surface chain ↔ chain ≠ [] := by
  constructor
  · rintro gated rfl
    have reached : Reached (guarded (surface.guards (fun _ _ => pure {}) {} "" []) Refusal.raise : M DslExecutionResult → _)
        (surface.start {}) := by
      obtain ⟨skip,contract,loop⟩ := surface_loop surface (fun _ _ => pure {}) {} "" []
      rw [loop]
      exact reached_guarded.mpr ⟨_,rfl⟩
    obtain ⟨entry,member,-⟩ := gated _ (fun _ _ _ => rfl) {} "" {} DslExecutionResult Refusal.raise reached
    cases member
  · intro nonempty run balanced ctx method s α refuse reached
    obtain ⟨skip,contract,loop⟩ := surface_loop surface run ctx method chain
    rw [loop] at reached
    obtain ⟨u,admitted⟩ := admitted_of_reached balanced reached
    cases due : pending skip (surface.start s) chain with
    | nil =>
      obtain ⟨entry,member⟩ := List.exists_mem_of_ne_nil chain nonempty
      refine ⟨entry,member,.inl ?_⟩
      have skipped := List.filter_eq_nil_iff.mp due entry member
      simp only [Bool.not_eq_true',Bool.not_eq_false,Bool.and_eq_true] at skipped
      exact skipped.2
    | cons entry rest =>
      have member : entry ∈ pending skip (surface.start s) chain := by simp [due]
      rw [due] at admitted
      cases admitted with
      | cons _ ran below _ => exact ⟨_,(List.mem_filter.mp member).1,.inr ⟨_,_,ran,below⟩⟩

/-- `dsl-lint --require-guard` reports nothing about a tree that loads exactly when, in either mode and
on every surface, no route the audit knows is reached without a guard. -/
theorem require_guard_exact (loader : DslLoader) (root : Listing) (out : LoadedProjects)
    (loaded : loader.loadEverything root = .ok out) :
    Lint.runRequireGuardAudit loader root = [] ↔
      ∀ project methods method dsls dslKey, out.http.lookup project = some methods →
        methods.lookup method = some dsls → isAuditableMethod method = true → dslKey ∈ dsls →
        ∀ mode surface, Gated surface (applicableGuards out.guards mode project dslKey) := by
  simp only [Lint.runRequireGuardAudit,loaded,List.map_eq_nil_iff,List.filter_eq_nil_iff]
  constructor
  · intro clean project methods method dsls dslKey inHttp inMethods auditable inDsls mode surface
    rw [gated_iff,ne_eq,applicableGuards_eq_nil]
    have known := clean
      { project, method, dslKey
        path := (Text.stripPrefix dslKey (method ++ "/")).getD dslKey
        guards := guardKeysForDsl project dslKey out.guards .stack }
      (mem_auditAllRoutes.mpr ⟨methods,dsls,inHttp,inMethods,auditable,inDsls,rfl,rfl⟩)
    simpa [RouteAudit.isUnguarded] using known
  · intro gated route member
    obtain ⟨methods,dsls,inHttp,inMethods,auditable,inDsls,-,keys⟩ := mem_auditAllRoutes.mp member
    have chain := gated route.project methods route.method dsls route.dslKey inHttp inMethods auditable inDsls
      .stack .executeDsl
    rw [gated_iff,ne_eq,applicableGuards_eq_nil,← keys] at chain
    simpa [RouteAudit.isUnguarded] using chain

/-- `internal_for` of the endpoint. -/
def internalFor (dsls : HttpDsls) (defaultInternal : Bool) (route : RouteAudit) : Bool :=
  match (dsls.lookup route.project).bind (·.lookup route.method) with
  | none => false
  | some byKey =>
    ((byKey.lookup (route.method ++ "/" ++ route.path)).map (·.effectiveInternal defaultInternal)).getD false

/-- The entry of a route in the report. -/
def RouteAudit.entry (route : RouteAudit) (internal : Bool) : Json :=
  if route.isUnguarded then
    .object [("internal",.bool internal),("method",.string route.method),("path",.string route.path)]
  else
    .object [("guards",.array (route.guards.map .string)),("internal",.bool internal)
      ,("method",.string route.method),("path",.string route.path)]

/-- What the endpoint gathers: the totals, and the unguarded and guarded routes of each project. -/
structure UnguardedReport where
  totalGuarded : Nat := 0
  totalUnguarded : Nat := 0
  projects : StringMap (List Json × List Json) := ∅

namespace UnguardedReport

def entry (report : UnguardedReport) (project : String) : List Json × List Json :=
  (report.projects.lookup project).getD ([],[])

/-- One round of the loop. -/
def add (internal : RouteAudit → Bool) (report : UnguardedReport) (route : RouteAudit) : UnguardedReport :=
  let listed := report.entry route.project
  if route.isUnguarded then
    { report with
      totalUnguarded := report.totalUnguarded + 1
      projects := report.projects.insert route.project (listed.1 ++ [route.entry (internal route)],listed.2) }
  else
    { report with
      totalGuarded := report.totalGuarded + 1
      projects := report.projects.insert route.project (listed.1,listed.2 ++ [route.entry (internal route)]) }

def json (report : UnguardedReport) : Json :=
  .object
    [("projects",.object ((report.projects.entries.map fun entry =>
        (entry.1,Json.object [("guarded",.array entry.2.2),("unguarded",.array entry.2.1)])).insertionSort
          fun left right => left.1 ≤ right.1))
    ,("totals",.object
      [("guarded",.ofNat report.totalGuarded)
      ,("routes",.ofNat (report.totalGuarded + report.totalUnguarded))
      ,("unguarded",.ofNat report.totalUnguarded)])]

end UnguardedReport

/-- `handle_unguarded`, up to its JSON. -/
def handleUnguarded (dsls : HttpDsls) (guards : GuardDsls) (mode : GuardMode) (defaultInternal : Bool) :
    UnguardedReport :=
  (auditAllRoutes dsls guards mode).foldl (.add (internalFor dsls defaultInternal)) {}

section Endpoint
variable {internal : RouteAudit → Bool} {report : UnguardedReport} {route : RouteAudit}

/-- One more route is counted and listed once, under its project. -/
theorem entry_add (project : String) : (report.add internal route).entry project =
    ((report.entry project).1 ++
      (if route.project = project ∧ route.isUnguarded then [route.entry (internal route)] else []),
     (report.entry project).2 ++
      (if route.project = project ∧ ¬route.isUnguarded then [route.entry (internal route)] else [])) := by
  by_cases same : route.project = project
  · subst same
    by_cases bare : route.isUnguarded = true <;> simp [UnguardedReport.add,UnguardedReport.entry,bare]
  · by_cases bare : route.isUnguarded = true <;>
      simp [UnguardedReport.add,UnguardedReport.entry,bare,same,AList.lookup_insert_ne (Ne.symm same)]

def listed (internal : RouteAudit → Bool) (routes : List RouteAudit) (project : String) (bare : Bool) : List Json :=
  (routes.filter fun route => route.project = project ∧ route.isUnguarded = bare).map fun route =>
    route.entry (internal route)

theorem entry_foldl (routes : List RouteAudit) (project : String) :
    (routes.foldl (.add internal) report).entry project =
      ((report.entry project).1 ++ listed internal routes project true,
       (report.entry project).2 ++ listed internal routes project false) := by
  induction routes generalizing report with
  | nil => simp [listed]
  | cons route rest ih =>
    rw [List.foldl_cons,ih,entry_add]
    by_cases same : route.project = project <;> by_cases bare : route.isUnguarded = true <;>
      simp [listed,same,bare]

theorem totals_foldl (internal : RouteAudit → Bool) (report : UnguardedReport) (routes : List RouteAudit) :
    (routes.foldl (.add internal) report).totalUnguarded = report.totalUnguarded + routes.countP (·.isUnguarded) ∧
    (routes.foldl (.add internal) report).totalGuarded =
      report.totalGuarded + routes.countP fun route => !route.isUnguarded := by
  induction routes generalizing report with
  | nil => exact ⟨rfl,rfl⟩
  | cons route rest ih =>
    obtain ⟨bare,covered⟩ := ih (report.add internal route)
    rw [List.foldl_cons,bare,covered]
    by_cases plain : route.isUnguarded = true <;> simp [UnguardedReport.add,plain] <;> omega

/-- The routes of a tree that the audit knows. -/
def auditable (http : HttpDsls) : List (String × String × String) :=
  http.entries.flatMap fun ⟨project,methods⟩ =>
    (methods.entries.filter fun ⟨method,_⟩ => isAuditableMethod method).flatMap fun ⟨method,dsls⟩ =>
      dsls.keys.map fun dslKey => (project,method,dslKey)

theorem auditAllRoutes_perm (http : HttpDsls) (guards : GuardDsls) (mode : GuardMode) :
    (auditAllRoutes http guards mode).Perm ((auditable http).map fun ⟨project,method,dslKey⟩ =>
      { project, method, dslKey
        path := (Text.stripPrefix dslKey (method ++ "/")).getD dslKey
        guards := guardKeysForDsl project dslKey guards mode }) := by
  refine (List.perm_insertionSort _ _).trans (.of_eq ?_)
  simp [auditable,List.map_flatMap,Function.comp_def]

/-- The same routes are unguarded in either mode. -/
theorem countP_unguarded_mode (http : HttpDsls) (guards : GuardDsls) (mode other : GuardMode) :
    (auditAllRoutes http guards mode).countP (·.isUnguarded) =
      (auditAllRoutes http guards other).countP (·.isUnguarded) := by
  rw [(auditAllRoutes_perm http guards mode).countP_eq,(auditAllRoutes_perm http guards other).countP_eq,
    List.countP_map,List.countP_map]
  apply List.countP_congr
  rintro ⟨project,method,dslKey⟩ -
  simp only [Function.comp_apply,RouteAudit.isUnguarded,List.isEmpty_iff]
  exact guardKeysForDsl_mode other

end Endpoint

/-- In either mode the endpoint counts every route the audit knows, counts as unguarded as many as
`--require-guard` reports, and lists each under its project on the side it is counted on. -/
theorem endpoint_agrees (loader : DslLoader) (root : Listing) (out : LoadedProjects)
    (loaded : loader.loadEverything root = .ok out) (mode : GuardMode) (defaultInternal : Bool) :
    (handleUnguarded out.http out.guards mode defaultInternal).totalUnguarded =
      (Lint.runRequireGuardAudit loader root).length ∧
    (handleUnguarded out.http out.guards mode defaultInternal).totalGuarded +
      (handleUnguarded out.http out.guards mode defaultInternal).totalUnguarded = (auditable out.http).length ∧
    ∀ project, (handleUnguarded out.http out.guards mode defaultInternal).entry project =
      (listed (internalFor out.http defaultInternal) (auditAllRoutes out.http out.guards mode) project true,
       listed (internalFor out.http defaultInternal) (auditAllRoutes out.http out.guards mode) project false) := by
  obtain ⟨bare,covered⟩ := totals_foldl (internalFor out.http defaultInternal) {}
    (auditAllRoutes out.http out.guards mode)
  refine ⟨?_,?_,?_⟩
  · rw [handleUnguarded,bare,countP_unguarded_mode out.http out.guards mode .stack]
    simp [Lint.runRequireGuardAudit,loaded,List.countP_eq_length_filter]
  · have all := (auditAllRoutes_perm out.http out.guards mode).length_eq
    have sides := List.length_eq_countP_add_countP (·.isUnguarded = true) (l := auditAllRoutes out.http out.guards mode)
    rw [List.length_map] at all
    simp only [handleUnguarded,bare,covered,Nat.zero_add,← all]
    rw [sides,Nat.add_comm]
    simp
  · intro project
    rw [handleUnguarded,entry_foldl]
    rfl

open Listing DslLoader in
theorem require_guard_exact_guarded : ∃ out, spellingLoader.loadEverything guardedTree.listing = .ok out ∧
    (Lint.runRequireGuardAudit spellingLoader guardedTree.listing = [] ↔
      ∀ project methods method dsls dslKey, out.http.lookup project = some methods →
        methods.lookup method = some dsls → isAuditableMethod method = true → dslKey ∈ dsls →
        ∀ mode surface, Gated surface (applicableGuards out.guards mode project dslKey)) := by
  obtain ⟨out,accepted,_⟩ := loadEverything_find guardedTree.named guardedTree_items
  exact ⟨out,accepted,require_guard_exact spellingLoader guardedTree.listing out accepted⟩

open Listing DslLoader in
theorem endpoint_agrees_guarded : ∃ out, spellingLoader.loadEverything guardedTree.listing = .ok out ∧
    (handleUnguarded out.http out.guards .closestOnly false).totalUnguarded =
      (Lint.runRequireGuardAudit spellingLoader guardedTree.listing).length := by
  obtain ⟨out,accepted,_⟩ := loadEverything_find guardedTree.named guardedTree_items
  exact ⟨out,accepted,(endpoint_agrees spellingLoader guardedTree.listing out accepted .closestOnly false).1⟩

end Ruuter
