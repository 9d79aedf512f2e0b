import Ruuter.Footprint

/-! The state store keeps projects apart. A run changes the entries of its own project and of that
of the default exception DSL, and nothing it does or answers depends on the entries of another. -/
namespace Ruuter

/-- Two stores hold the same entries of a project, and count and cap them alike. -/
structure StateStore.Same (project : String) (a b : StateStore) : Prop where
  entries : ∀ key, a.get project key = b.get project key
  counted : a.projectCounts.lookup project = b.projectCounts.lookup project
  cap : a.maxEntriesPerProject = b.maxEntriesPerProject

namespace StateStore
variable {a b c : StateStore}

@[simp] theorem Same.refl : Same project a a := ⟨fun _ => rfl,rfl,rfl⟩

theorem Same.symm (same : Same project a b) : Same project b a :=
  ⟨fun key => (same.entries key).symm,same.counted.symm,same.cap.symm⟩

theorem Same.trans (first : Same project a b) (second : Same project b c) : Same project a c :=
  ⟨fun key => (first.entries key).trans (second.entries key),first.counted.trans second.counted,
    first.cap.trans second.cap⟩

theorem Same.mem_iff (same : Same project a b) :
    (⟨project,key⟩ : StateKey) ∈ a.inner ↔ (⟨project,key⟩ : StateKey) ∈ b.inner := by
  have held := same.entries key
  simp only [get] at held
  rw [← AList.lookup_isSome,held,AList.lookup_isSome]

theorem get_insert {inner : AList fun _ : StateKey => Json} :
    (inner.insert ⟨project,key⟩ value).lookup ⟨other,name⟩ =
      if other = project ∧ name = key then some value else inner.lookup ⟨other,name⟩ := by
  by_cases same : (⟨other,name⟩ : StateKey) = ⟨project,key⟩
  · rw [same,AList.lookup_insert]
    cases same
    simp
  · rw [AList.lookup_insert_ne same,if_neg]
    rintro ⟨rfl,rfl⟩
    exact same rfl

theorem get_erase {inner : AList fun _ : StateKey => Json} :
    (inner.erase ⟨project,key⟩).lookup ⟨other,name⟩ =
      if other = project ∧ name = key then none else inner.lookup ⟨other,name⟩ := by
  by_cases same : (⟨other,name⟩ : StateKey) = ⟨project,key⟩
  · rw [same,AList.lookup_erase]
    cases same
    simp
  · rw [AList.lookup_erase_ne same,if_neg]
    rintro ⟨rfl,rfl⟩
    exact same rfl

/-- A write of one project is not seen in another. -/
theorem set_other (foreign : other ≠ project) (written : a.set project key value = .ok b) : Same other b a := by
  unfold set at written
  split at written
  · cases written
    exact ⟨fun name => by simp [get,foreign],rfl,rfl⟩
  · split at written
    · cases written
      exact ⟨fun name => by simp [get,foreign],rfl,rfl⟩
    · dsimp only at written
      split at written
      · cases written
      · cases written
        exact ⟨fun name => by simp [get,foreign],AList.lookup_insert_ne foreign,rfl⟩

theorem delete_other (foreign : other ≠ project) : Same other (a.delete project key) a := by
  unfold delete
  split
  · refine ⟨fun name => by simp [get,foreign],?_,rfl⟩
    dsimp only
    split
    · exact AList.lookup_insert_ne foreign
    · rfl
  · exact .refl

/-- What a `state.set` does depends on the entries of its project only. -/
theorem set_same (same : Same project a b) (key : String) (value : Json) :
    (∃ message, a.set project key value = .error message ∧ b.set project key value = .error message) ∨
      ∃ a' b', a.set project key value = .ok a' ∧ b.set project key value = .ok b' ∧ Same project a' b' := by
  have inserted : ∀ name, (a.inner.insert ⟨project,key⟩ value).lookup ⟨project,name⟩ =
      (b.inner.insert ⟨project,key⟩ value).lookup ⟨project,name⟩ := by
    intro name
    rw [get_insert,get_insert]
    split
    · rfl
    · exact same.entries name
  unfold set
  simp only [same.mem_iff,same.cap,same.counted]
  split
  · exact .inr ⟨_,_,rfl,rfl,inserted,same.counted,rfl⟩
  · split
    · exact .inr ⟨_,_,rfl,rfl,inserted,same.counted,rfl⟩
    · split
      · exact .inl ⟨_,rfl,rfl⟩
      · refine .inr ⟨_,_,rfl,rfl,inserted,?_,rfl⟩
        rw [AList.lookup_insert,AList.lookup_insert]

theorem delete_same (same : Same project a b) : Same project (a.delete project key) (b.delete project key) := by
  unfold delete
  simp only [same.mem_iff,same.cap,same.counted]
  split
  · refine ⟨fun name => ?_,?_,rfl⟩
    · simp only [get]
      rw [get_erase,get_erase]
      split
      · rfl
      · exact same.entries name
    · dsimp only
      split
      · rw [AList.lookup_insert,AList.lookup_insert]
      · exact same.counted
  · exact same

end StateStore

/-- The projects whose entries a run may use: its own and that of the default exception DSL. A DSL
called at the process's own listener counts with the rest of the system. -/
def Reaches (h : Host) (ctx : Ctx) (project : String) : Prop :=
  project = ctx.project ∨ ∃ cfg, h.defaultExceptionDsl = some cfg ∧ project = cfg.project

section Results
variable {h : Host} {ctx : Ctx}

/-- What other requests keep of a project's entries and count, from any store. -/
def KeptByOthers (h : Host) (project : String) (P : (String → Option Json) → Option Nat → Prop) : Prop :=
  ∀ now store, P (store.get project) (store.projectCounts.lookup project) →
    P ((h.interfere now store).get project) ((h.interfere now store).projectCounts.lookup project)

theorem StateStore.Same.part {a b : StateStore} (same : StateStore.Same project a b)
    {P : (String → Option Json) → Option Nat → Prop} (holds : P (a.get project) (a.projectCounts.lookup project)) :
    P (b.get project) (b.projectCounts.lookup project) := by
  have entries : a.get project = b.get project := funext same.entries
  rwa [← entries,← same.counted]

theorem storeSet_error (failed : s.store.set project key value = .error message) :
    storeSet project key value s = (.error (.invalidStep message),s) := by
  unfold storeSet
  rw [Eff.bind_eq_ok (Eff.get_eq s)]
  simp only [failed]
  rfl

theorem storeSet_ok (written : s.store.set project key value = .ok store) :
    storeSet project key value s = (.ok (),{ s with store }) := by
  unfold storeSet
  rw [Eff.bind_eq_ok (Eff.get_eq s)]
  simp only [written]
  rfl

theorem confined_other (h : Host) (ctx : Ctx) (project : String) (P : (String → Option Json) → Option Nat → Prop)
    (kept : KeptByOthers h project P) (apart : ¬ Reaches h ctx project) :
    Confined h (fun s t => s = t ∧ P (s.store.get project) (s.store.projectCounts.lookup project))
      (fun _ => True) (Reaches h ctx) where
  vars := by rintro s t ⟨rfl,_⟩; rfl
  stack := by rintro s t ⟨rfl,_⟩; rfl
  clock := by rintro s t ⟨rfl,_⟩; rfl
  moves := by
    rintro s t stack events clock ⟨rfl,holds⟩
    exact ⟨rfl,holds⟩
  binds := by
    rintro s t name value _ ⟨rfl,holds⟩
    exact ⟨rfl,holds⟩
  reads := by rintro s t project key _ ⟨rfl,_⟩; rfl
  sets := by
    rintro own key value reached s t ⟨rfl,holds⟩
    have foreign : project ≠ own := by
      rintro rfl
      exact apart reached
    refine ⟨rfl,rfl,?_⟩
    cases written : s.store.set own key value with
    | error message =>
      rw [storeSet_error written]
      exact holds
    | ok store =>
      rw [storeSet_ok written]
      exact (StateStore.set_other foreign written).symm.part holds
  deletes := by
    rintro s t own key reached ⟨rfl,holds⟩
    have foreign : project ≠ own := by
      rintro rfl
      exact apart reached
    exact ⟨rfl,(StateStore.delete_other foreign).symm.part holds⟩
  interferes := by
    rintro s t now ⟨rfl,holds⟩
    exact ⟨rfl,kept now s.store holds⟩
  handles cfg configured := .inr ⟨cfg,configured,rfl⟩

/-- Whatever other requests keep of another project's entries, a run keeps. -/
theorem run_keeps_other_project (h : Host) (fuel : Nat) (dsl : Dsl) (ctx : Ctx) (s : St)
    (P : (String → Option Json) → Option Nat → Prop) (kept : KeptByOthers h project P)
    (apart : ¬ Reaches h ctx project) (holds : P (s.store.get project) (s.store.projectCounts.lookup project)) :
    P (((engine h fuel).run dsl ctx s).2.store.get project)
      (((engine h fuel).run dsl ctx s).2.store.projectCounts.lookup project) := by
  have confined := confined_other h ctx project P kept apart
  have steady : Eff.Keeps _ ((engine h fuel).run dsl ctx) :=
    ((engine_contained h _ fuel).run confined (fun _ _ => trivial) (.inl rfl)).keeps
  exact steady s holds

/-- A run that writes the key a rival project uses. -/
def markDsl : Dsl where
  steps :=
    { entries := [⟨"mark",.state { state := .set "mark" (.bool false) }⟩]
      nodupKeys := by simp [List.NodupKeys] }

/-- Requests of a rival that clear its scratch entry at every moment. -/
def rivalHost : Host where
  interfere := fun _ store => store.delete "rival" "scratch"

theorem rival_apart : ¬ Reaches rivalHost { project := "own" } "rival" := by
  rintro (same | ⟨cfg,configured,_⟩)
  · exact absurd same (by decide)
  · cases configured

def markedByRival : StateStore :=
  { inner := (∅ : AList fun _ : StateKey => Json).insert ⟨"rival","mark"⟩ (.bool true) }

theorem run_keeps_other_project_rival :
    ((engine rivalHost 2).run markDsl { project := "own" } { store := markedByRival }).2.store.get "rival" "mark" =
      some (.bool true) := by
  refine run_keeps_other_project rivalHost 2 markDsl { project := "own" } { store := markedByRival }
    (fun entries _ => entries "mark" = some (.bool true)) ?_ rival_apart rfl
  intro now store holds
  show (StateStore.delete store "rival" "scratch").inner.lookup ⟨"rival","mark"⟩ = some (.bool true)
  unfold StateStore.delete
  split
  · rw [StateStore.get_erase]
    exact holds
  · exact holds

/-- The projects whose entries a run may use together with the runs of its self-calls: any project of
the tree is one, when its requests can be self-calls. -/
def ReachesServed (h : Host) (client : HttpClient) (tree : Tree) (ctx : Ctx) (project : String) : Prop :=
  Reaches h ctx project ∨ (client.selfOrigins ≠ [] ∧ (tree.dsls.lookup project).isSome)

section Twins
variable {projects : String → Prop}

/-- Two states that differ in the entries of other projects at most. -/
def Twin (projects : String → Prop) (s t : St) : Prop :=
  s = { t with store := s.store } ∧ ∀ project, projects project → s.store.Same project t.store

/-- Other requests do to some projects what depends on these projects only. -/
def Respects (h : Host) (projects : String → Prop) : Prop :=
  ∀ now a b, (∀ project, projects project → StateStore.Same project a b) →
    ∀ project, projects project → (h.interfere now a).Same project (h.interfere now b)

theorem twin_set (reached : projects own) :
    Eff.Lockstep (Twin projects) (storeSet own key value) := by
  rintro s t ⟨eq,same⟩
  rcases StateStore.set_same (same own reached) key value with
    ⟨message,left,right⟩ | ⟨a,b,left,right,after⟩
  · rw [storeSet_error left,storeSet_error right]
    exact ⟨rfl,eq,same⟩
  · rw [storeSet_ok left,storeSet_ok right]
    refine ⟨rfl,by rw [eq],fun project here => ?_⟩
    by_cases foreign : project = own
    · exact foreign ▸ after
    · exact (StateStore.set_other foreign left).trans
        ((same project here).trans (StateStore.set_other foreign right).symm)

theorem confined_twin (respects : Respects h projects)
    (handles : ∀ cfg, h.defaultExceptionDsl = some cfg → projects cfg.project) :
    Confined h (Twin projects) (fun _ => True) projects where
  vars := by rintro s t ⟨eq,_⟩; rw [eq]
  stack := by rintro s t ⟨eq,_⟩; rw [eq]
  clock := by rintro s t ⟨eq,_⟩; rw [eq]
  moves := by
    rintro s t stack events clock ⟨eq,same⟩
    exact ⟨by rw [eq],same⟩
  binds := by
    rintro s t name value _ ⟨eq,same⟩
    exact ⟨by rw [eq],same⟩
  reads := by
    rintro s t project key reached ⟨_,same⟩
    exact (same project reached).entries key
  sets key value reached := twin_set reached
  deletes := by
    rintro s t own key reached ⟨eq,same⟩
    refine ⟨by rw [eq],fun project here => ?_⟩
    by_cases foreign : project = own
    · exact foreign ▸ StateStore.delete_same (same project here)
    · exact (StateStore.delete_other foreign).trans
        ((same project here).trans (StateStore.delete_other foreign).symm)
  interferes := by
    rintro s t now ⟨eq,same⟩
    exact ⟨by rw [eq],respects now _ _ same⟩
  handles := handles

end Twins

/-- From states that differ in the entries of other projects, runs do the same, self-calls included:
the same answer or error, the same events, and the same entries of the projects they reach. -/
theorem run_independent_of_others (h : Host) (client : HttpClient) (r : Router) (tree : Tree) (fuel : Nat)
    (dsl : Dsl) (ctx : Ctx) (respects : Respects h (ReachesServed h client tree ctx))
    (twin : Twin (ReachesServed h client tree ctx) s t) :
    ((routed h client r tree fuel).run dsl ctx s).1 = ((routed h client r tree fuel).run dsl ctx t).1 ∧
      Twin (ReachesServed h client tree ctx) ((routed h client r tree fuel).run dsl ctx s).2
        ((routed h client r tree fuel).run dsl ctx t).2 := by
  have contained : Contained h (ReachesServed h client tree ctx) (routed h client r tree fuel) :=
    routed_contained h client r tree (fun origins _ held => .inr ⟨origins,held⟩) fuel
  have confined := confined_twin respects fun cfg configured => .inl (.inr ⟨cfg,configured,rfl⟩)
  exact contained.run confined (fun _ _ => trivial) (.inl (.inl rfl)) s t twin

/-- A client that answers for one host, with a URL that names it. -/
def ownClient : HttpClient where
  selfOrigins := [("self",80)]
  parseUrl := fun _ => .ok { scheme := "http", host := some "self", path := "/peer/mark" }

/-- A project that marks its calls. -/
def peerTree : Tree where
  dsls := (∅ : HttpDsls).insert "peer" ((∅ : StringMap (StringMap Dsl)).insert "GET"
    ((∅ : StringMap Dsl).insert "GET/mark" markDsl))

/-- A run that calls the process itself. -/
def callDsl : Dsl where
  steps := (∅ : StringMap DslStep).insert "call"
    (.http { call := "http.get", args := { url := "http://self/peer/mark" }, result := some "answer" })

theorem rival_unserved : ¬ ReachesServed rivalHost ownClient peerTree { project := "own" } "rival" := by
  rintro (reached | ⟨_,held⟩)
  · exact rival_apart reached
  · exact absurd held (by decide)

theorem rival_respects : Respects rivalHost (ReachesServed rivalHost ownClient peerTree { project := "own" }) := by
  intro now a b same project reached
  have foreign : project ≠ "rival" := by
    rintro rfl
    exact rival_unserved reached
  exact (StateStore.delete_other foreign).trans
    ((same project reached).trans (StateStore.delete_other foreign).symm)

/-- The call writes the entry of the project called, and nothing of it depends on the rival. -/
theorem run_independent_of_rival :
    (((routed rivalHost ownClient {} peerTree 3).run callDsl { project := "own" } {}).2.store.get
      "peer" "mark").map isTruthy = some false ∧
    ((routed rivalHost ownClient {} peerTree 3).run callDsl { project := "own" } { store := markedByRival }).1 =
        ((routed rivalHost ownClient {} peerTree 3).run callDsl { project := "own" } {}).1 ∧
      Twin (ReachesServed rivalHost ownClient peerTree { project := "own" })
        ((routed rivalHost ownClient {} peerTree 3).run callDsl { project := "own" } { store := markedByRival }).2
        ((routed rivalHost ownClient {} peerTree 3).run callDsl { project := "own" } {}).2 := by
  refine ⟨by decide +kernel,run_independent_of_others rivalHost ownClient {} peerTree 3 callDsl { project := "own" }
    rival_respects ⟨rfl,?_⟩⟩
  intro project reached
  have foreign : project ≠ "rival" := by
    rintro rfl
    exact rival_unserved reached
  refine ⟨fun key => ?_,rfl,rfl⟩
  show markedByRival.inner.lookup ⟨project,key⟩ = none
  rw [markedByRival,StateStore.get_insert,if_neg fun same => foreign same.1]
  rfl

end Results
end Ruuter
