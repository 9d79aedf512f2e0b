import Ruuter.Lib.Table
import Ruuter.Lib.Transition
import Ruuter.Routing

/-! Hot reload: `DslRouter::publish_dsls` stores three cells one after the other while
requests load two of them, and several `reload_once` runs may publish at the same time. -/
namespace Ruuter.HotReload
open Transition Table

/-- The tree before and the tree after the publish. -/
inductive Generation
  | old | new
deriving DecidableEq

structure Trees where
  dsls : HttpDsls
  guards : GuardDsls

/-- A request as `execute_dsl` resolves it. -/
structure Request where
  project : String
  method : String
  path : String
deriving DecidableEq

/-- How far a request has come. `loaded` holds the generation of the tree its body was taken
from, the matched key and the guard chain it is about to run. -/
inductive Progress
  | arrived
  | notFound
  | resolved (generation : Generation) (dsl : Dsl) (key : String)
  | loaded (generation : Generation) (dsl : Dsl) (key : String) (chain : List (String × Dsl))

structure Server where
  dsls : Generation := .old
  guards : Generation := .old
  spec : Generation := .old
  requests : List (Request × Progress) := []

inductive Action
  | storeDsls
  | storeGuards
  | storeSpec
  | arrive (request : Request)
  | resolve (i : Nat)
  | loadGuards (i : Nat)
deriving DecidableEq

variable (trees : Generation → Trees) (mode : GuardMode)

def Request.lookup (request : Request) (tree : Trees) : Option (Dsl × String × List String) :=
  resolveDslWithPathParams tree.dsls request.project request.method request.path

def Server.setProgress (s : Server) (i : Nat) (progress : Progress) : Server :=
  { s with requests := s.requests.modify i fun entry => (entry.1,progress) }

/-- One atomic access: a store of the one publish, in its order, or a load of a request. -/
def step (s : Server) : Action → Option Server
  | .storeDsls => if s.dsls = .old then some { s with dsls := .new } else none
  | .storeGuards =>
    if s.dsls = .new ∧ s.guards = .old then some { s with guards := .new } else none
  | .storeSpec =>
    if s.guards = .new ∧ s.spec = .old then some { s with spec := .new } else none
  | .arrive request => some { s with requests := s.requests ++ [(request,.arrived)] }
  | .resolve i =>
    match s.requests[i]? with
    | some (request,.arrived) =>
      match request.lookup (trees s.dsls) with
      | some (dsl,key,_) => some (s.setProgress i (.resolved s.dsls dsl key))
      | none => some (s.setProgress i .notFound)
    | _ => none
  | .loadGuards i =>
    match s.requests[i]? with
    | some (request,.resolved generation dsl key) =>
      some (s.setProgress i (.loaded generation dsl key
        (applicableGuards (trees s.guards).guards mode request.project key)))
    | _ => none

/-- Every request that goes on to run a body of one generation runs the guard chain of the
same generation. -/
def Consistent (s : Server) : Prop :=
  ∀ (i : Nat) request generation dsl key chain,
    s.requests[i]? = some (request,.loaded generation dsl key chain) →
    chain = applicableGuards (trees generation).guards mode request.project key

/-- The generation a load sees, from its place in the schedule. -/
def seen (store load : Action) (schedule : List Action) : Generation :=
  if Precedes store load schedule then .new else .old

/-- The requests of a schedule, in the order of their arrival. -/
def arrivals (schedule : List Action) : List Request :=
  schedule.filterMap fun
    | .arrive request => some request
    | _ => none

/-- A request that loads its guard chain sees both stores or neither before its loads, or
else is gated alike by both guard trees. -/
def Undivided (schedule : List Action) : Prop :=
  ∀ (i : Nat) request dsl key params, (arrivals schedule)[i]? = some request →
    .loadGuards i ∈ schedule →
    request.lookup (trees (seen .storeDsls (.resolve i) schedule)) = some (dsl,key,params) →
    seen .storeDsls (.resolve i) schedule = seen .storeGuards (.loadGuards i) schedule ∨
      applicableGuards (trees .old).guards mode request.project key =
        applicableGuards (trees .new).guards mode request.project key

/-- What the schedule so far says about a request. -/
def Traced (schedule : List Action) (i : Nat) (request : Request) : Progress → Prop
  | .arrived => .resolve i ∉ schedule ∧ .loadGuards i ∉ schedule
  | .notFound => .resolve i ∈ schedule ∧ .loadGuards i ∉ schedule
  | .resolved generation dsl key =>
    .resolve i ∈ schedule ∧ .loadGuards i ∉ schedule ∧
      generation = seen .storeDsls (.resolve i) schedule ∧
      ∃ params, request.lookup (trees generation) = some (dsl,key,params)
  | .loaded generation dsl key chain =>
    .resolve i ∈ schedule ∧ .loadGuards i ∈ schedule ∧
      generation = seen .storeDsls (.resolve i) schedule ∧
      (∃ params, request.lookup (trees generation) = some (dsl,key,params)) ∧
      chain = applicableGuards (trees (seen .storeGuards (.loadGuards i) schedule)).guards mode
        request.project key

structure Recorded (schedule : List Action) (s : Server) : Prop where
  dsls : s.dsls = .new ↔ .storeDsls ∈ schedule
  guards : s.guards = .new ↔ .storeGuards ∈ schedule
  requests : s.requests.map Prod.fst = arrivals schedule
  fresh : ∀ i, s.requests.length ≤ i → .resolve i ∉ schedule ∧ .loadGuards i ∉ schedule
  traced : ∀ (i : Nat) request progress, s.requests[i]? = some (request,progress) →
    Traced trees mode schedule i request progress

variable {trees mode} {s t : Server} {a : Action} {schedule : List Action} {i : Nat}

theorem seen_snoc_of_mem (occurred : load ∈ schedule) :
    seen store load (schedule ++ [a]) = seen store load schedule := by
  simp [seen,precedes_snoc_of_mem occurred]

/-- A load sees the cell as the stores before it have left it. -/
theorem seen_snoc_self (fresh : load ∉ schedule) (cell : generation = .new ↔ store ∈ schedule) :
    seen store load (schedule ++ [load]) = generation := by
  simp only [seen,precedes_snoc_self fresh,← cell]
  cases generation <;> simp

theorem arrivals_snoc_of_not_arrive (other : ∀ request, a ≠ .arrive request) :
    arrivals (schedule ++ [a]) = arrivals schedule := by
  cases a with
  | arrive request => exact absurd rfl (other request)
  | storeDsls | storeGuards | storeSpec | resolve | loadGuards => simp [arrivals]

/-- An action that is no load of the request leaves its trace alone. -/
theorem Traced.snoc (traced : Traced trees mode schedule i request progress)
    (notResolve : a ≠ .resolve i) (notLoad : a ≠ .loadGuards i) :
    Traced trees mode (schedule ++ [a]) i request progress := by
  have absent : ∀ {b : Action}, b ∉ schedule → a ≠ b → b ∉ schedule ++ [a] := by
    intro b fresh other
    simp [fresh,Ne.symm other]
  cases progress with
  | arrived => exact ⟨absent traced.1 notResolve,absent traced.2 notLoad⟩
  | notFound => exact ⟨List.mem_append_left _ traced.1,absent traced.2 notLoad⟩
  | resolved generation dsl key =>
    obtain ⟨resolved,notLoaded,generation,found⟩ := traced
    refine ⟨List.mem_append_left _ resolved,absent notLoaded notLoad,?_,found⟩
    rw [seen_snoc_of_mem resolved]
    exact generation
  | loaded generation dsl key chain =>
    obtain ⟨resolved,loaded,generation,found,chain⟩ := traced
    refine ⟨List.mem_append_left _ resolved,List.mem_append_left _ loaded,?_,found,?_⟩
    · rw [seen_snoc_of_mem resolved]
      exact generation
    · rw [seen_snoc_of_mem loaded]
      exact chain

/-- A load of one request keeps the record when the new progress is traced. -/
theorem Recorded.load (record : Recorded trees mode schedule s)
    (found : s.requests[i]? = some (request,before)) (load : a = .resolve i ∨ a = .loadGuards i)
    (traced : Traced trees mode (schedule ++ [a]) i request progress) :
    Recorded trees mode (schedule ++ [a]) (s.setProgress i progress) := by
  have noStore : a ≠ .storeDsls ∧ a ≠ .storeGuards ∧ ∀ request, a ≠ .arrive request := by
    rcases load with rfl | rfl <;> simp
  obtain ⟨below,-⟩ := List.getElem?_eq_some_iff.mp found
  constructor
  · simpa [Ne.symm noStore.1,Server.setProgress] using record.dsls
  · simpa [Ne.symm noStore.2.1,Server.setProgress] using record.guards
  · rw [arrivals_snoc_of_not_arrive noStore.2.2,← record.requests]
    exact map_modify_eq fun _ => rfl
  · intro j beyond
    simp only [Server.setProgress,List.length_modify] at beyond
    have other : i ≠ j := by omega
    have old := record.fresh j beyond
    rcases load with rfl | rfl <;> simp [old,Ne.symm other]
  · intro j request' progress' atJ
    obtain ⟨old,atOld,⟨other,rfl⟩ | ⟨rfl,same⟩⟩ := getElem?_modify_cases atJ
    · refine (record.traced j request' progress' atOld).snoc ?_ ?_
      all_goals rcases load with rfl | rfl <;> simp [other]
    · obtain rfl := Option.some.inj (found.symm.trans atOld)
      cases same
      exact traced

/-- A store keeps the record when it changes the cells as the schedule says. -/
theorem Recorded.store (record : Recorded trees mode schedule s)
    (store : a = .storeDsls ∨ a = .storeGuards ∨ a = .storeSpec)
    (dsls : t.dsls = .new ↔ .storeDsls ∈ schedule ++ [a])
    (guards : t.guards = .new ↔ .storeGuards ∈ schedule ++ [a])
    (requests : t.requests = s.requests) : Recorded trees mode (schedule ++ [a]) t := by
  have noLoad : ∀ j, a ≠ .resolve j ∧ a ≠ .loadGuards j := by
    intro j
    rcases store with rfl | rfl | rfl <;> simp
  refine ⟨dsls,guards,?_,?_,?_⟩
  · rw [requests,arrivals_snoc_of_not_arrive,record.requests]
    rcases store with rfl | rfl | rfl <;> simp
  · intro j beyond
    rw [requests] at beyond
    have old := record.fresh j beyond
    simp [old,Ne.symm (noLoad j).1,Ne.symm (noLoad j).2]
  · intro j request progress atJ
    rw [requests] at atJ
    exact (record.traced j request progress atJ).snoc (noLoad j).1 (noLoad j).2

theorem Recorded.arrive (record : Recorded trees mode schedule s) (request : Request) :
    Recorded trees mode (schedule ++ [.arrive request])
      { s with requests := s.requests ++ [(request,.arrived)] } := by
  constructor
  · simpa using record.dsls
  · simpa using record.guards
  · simp [arrivals,record.requests]
  · intro j beyond
    simp only [List.length_append,List.length_singleton] at beyond
    simpa using record.fresh j (by omega)
  · intro j request' progress atJ
    rcases getElem?_snoc_cases atJ with old | ⟨rfl,new⟩
    · exact (record.traced j request' progress old).snoc (by simp) (by simp)
    · cases new
      simpa [Traced] using record.fresh _ (Nat.le_refl _)

theorem Recorded.step (record : Recorded trees mode schedule s) (taken : step trees mode s a = some t) :
    Recorded trees mode (schedule ++ [a]) t := by
  cases a with
  | storeDsls =>
    simp only [HotReload.step,Option.ite_none_right_eq_some,Option.some.injEq] at taken
    obtain ⟨-,rfl⟩ := taken
    exact record.store (.inl rfl) (by simp) (by simpa using record.guards) rfl
  | storeGuards =>
    simp only [HotReload.step,Option.ite_none_right_eq_some,Option.some.injEq] at taken
    obtain ⟨-,rfl⟩ := taken
    exact record.store (.inr (.inl rfl)) (by simpa using record.dsls) (by simp) rfl
  | storeSpec =>
    simp only [HotReload.step,Option.ite_none_right_eq_some,Option.some.injEq] at taken
    obtain ⟨-,rfl⟩ := taken
    exact record.store (.inr (.inr rfl)) (by simpa using record.dsls) (by simpa using record.guards) rfl
  | arrive request =>
    cases taken
    exact record.arrive request
  | resolve i =>
    simp only [HotReload.step] at taken
    split at taken
    · rename_i request found
      obtain ⟨notResolved,notLoaded⟩ := record.traced i request .arrived found
      have seen := seen_snoc_self notResolved record.dsls
      have notLoaded : .loadGuards i ∉ schedule ++ [.resolve i] := by simp [notLoaded]
      split at taken
      · rename_i dsl key params located
        cases taken
        exact record.load found (.inl rfl) ⟨by simp,notLoaded,seen.symm,params,located⟩
      · cases taken
        exact record.load found (.inl rfl) ⟨by simp,notLoaded⟩
    · cases taken
  | loadGuards i =>
    simp only [HotReload.step] at taken
    split at taken
    · rename_i request generation dsl key found
      obtain ⟨resolved,notLoaded,generation,located⟩ := record.traced i request _ found
      cases taken
      refine record.load found (.inr rfl) ⟨by simp [resolved],by simp,?_,located,?_⟩
      · rw [seen_snoc_of_mem resolved]
        exact generation
      · rw [seen_snoc_self notLoaded record.guards]
    · cases taken

theorem recorded (reached : exec (step trees mode) {} schedule = some s) :
    Recorded trees mode schedule s := by
  refine exec_history (I := Recorded trees mode) ?_ (fun _ _ _ _ record taken => record.step taken) reached
  constructor <;> simp [arrivals]

/-- Requests and their guard chains stay within one generation in exactly the runs whose
requests are undivided by the publish. -/
theorem consistent_iff_undivided (trees : Generation → Trees) (mode : GuardMode)
    (schedule : List Action) (reached : exec (step trees mode) {} schedule = some s) :
    Consistent trees mode s ↔ Undivided trees mode schedule := by
  have record := recorded reached
  constructor
  · intro consistent i request dsl key params arrived loaded located
    rw [← record.requests,List.getElem?_map,Option.map_eq_some_iff] at arrived
    obtain ⟨⟨_,progress⟩,found,rfl⟩ := arrived
    have traced := record.traced i _ progress found
    cases progress with
    | arrived => exact absurd loaded traced.2
    | notFound => exact absurd loaded traced.2
    | resolved generation dsl key => exact absurd loaded traced.2.1
    | loaded generation dsl' key' chain =>
      obtain ⟨-,-,rfl,⟨params',located'⟩,chain⟩ := traced
      have same := consistent i _ _ dsl' key' _ found
      rw [located] at located'
      cases located'
      rw [chain] at same
      by_cases agree : seen .storeDsls (.resolve i) schedule = seen .storeGuards (.loadGuards i) schedule
      · exact .inl agree
      · right
        revert same agree
        cases seen .storeDsls (.resolve i) schedule <;>
          cases seen .storeGuards (.loadGuards i) schedule <;> simp +contextual
  · intro undivided i request generation dsl key chain found
    obtain ⟨-,loaded,rfl,⟨params,located⟩,rfl⟩ := record.traced i request _ found
    have arrived : (arrivals schedule)[i]? = some request := by
      rw [← record.requests,List.getElem?_map,found]
      rfl
    rcases undivided i request dsl key params arrived loaded located with agree | alike
    · rw [agree]
    · revert alike
      cases seen .storeDsls (.resolve i) schedule <;>
        cases seen .storeGuards (.loadGuards i) schedule <;> simp +contextual

/-- A publish that adds one route together with the guard that protects it. -/
def addedRoute : Generation → Trees
  | .old => { dsls := ∅, guards := ∅ }
  | .new =>
    { dsls := .singleton "shop" (.singleton "GET" (.singleton "GET/orders" ⟨∅⟩))
      guards := .singleton "shop" (.singleton "GET/orders" ⟨∅⟩) }

def ordersRequest : Request := { project := "shop", method := "GET", path := "orders" }

/-- A request between the two stores finds the new route and an empty guard tree. -/
theorem divided_request_unguarded :
    ∃ s, exec (step addedRoute .stack) {} [.storeDsls,.arrive ordersRequest,.resolve 0,.loadGuards 0,
        .storeGuards,.storeSpec] = some s ∧ ¬Consistent addedRoute .stack s := by
  refine ⟨_,rfl,fun consistent => ?_⟩
  have chain := consistent 0 ordersRequest .new ⟨∅⟩ "GET/orders" [] rfl
  have length := congrArg List.length chain
  revert length
  decide

theorem published_request_consistent :
    Consistent addedRoute .stack
      { dsls := .new, guards := .new, spec := .new
        requests := [(ordersRequest,.loaded .new ⟨∅⟩ "GET/orders" [("GET/orders",⟨∅⟩)])] } := by
  refine (consistent_iff_undivided addedRoute .stack
    [.storeDsls,.storeGuards,.storeSpec,.arrive ordersRequest,.resolve 0,.loadGuards 0] rfl).mpr ?_
  intro i request dsl key params arrived loaded located
  obtain rfl : i = 0 := by simpa using loaded
  left
  decide

end Ruuter.HotReload
