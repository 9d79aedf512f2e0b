import Ruuter.Context
import Ruuter.Detach

/-! Contexts that share by `Arc` (`src/context/mod.rs`). The variables and the guard stack of
an `ExecutionContext` are references into a heap of cells, the request fields are values, and
the state store is one for all. `clone` copies the references; `snapshot`, which `detach`
takes before it spawns, allocates. -/
namespace Ruuter

/-- The cells that contexts refer to, and the state store that they share. -/
structure Heap where
  vars : List (StringMap Json) := []
  guardStacks : List (List String) := []
  state : StateStore := {}

/-- `ExecutionContext`, with live references. -/
structure ExecutionContext (heap : Heap) where
  request : Ctx
  vars : Fin heap.vars.length
  guardStack : Fin heap.guardStacks.length

namespace Heap

/-- The variables behind a reference. -/
def variablesAt (heap : Heap) (cell : Nat) : StringMap Json := heap.vars[cell]?.getD ∅

/-- `set_variable`, through any context that refers to the cell. -/
def setVariable (heap : Heap) (cell : Nat) (key : String) (value : Json) : Heap :=
  { heap with vars := heap.vars.modify cell (·.insert key value) }

/-- `snapshot`: a new cell with a copy of the variables, and a new guard stack. -/
def snapshot (heap : Heap) (ctx : ExecutionContext heap) :
    (grown : Heap) × ExecutionContext grown :=
  ⟨{ heap with
      vars := heap.vars ++ [heap.variablesAt ctx.vars]
      guardStacks := heap.guardStacks ++ [[]] },
    { request := ctx.request
      vars := ⟨heap.vars.length,by simp⟩
      guardStack := ⟨heap.guardStacks.length,by simp⟩ }⟩

/-- A sequence of `set_variable` calls, each with the cell that it writes. -/
def writes (heap : Heap) (calls : List (Nat × String × Json)) : Heap :=
  calls.foldl (fun heap call => heap.setVariable call.1 call.2.1 call.2.2) heap

end Heap

/-- What a sequence of bindings makes of a variable map. -/
def bindAll (vars : StringMap Json) (bindings : List (String × Json)) : StringMap Json :=
  bindings.foldl (fun vars binding => vars.insert binding.1 binding.2) vars

variable {heap : Heap}

theorem variablesAt_setVariable_same (live : cell < heap.vars.length) :
    (heap.setVariable cell key value).variablesAt cell = (heap.variablesAt cell).insert key value := by
  simp [Heap.variablesAt,Heap.setVariable,live]

theorem variablesAt_setVariable_ne (ne : cell ≠ other) :
    (heap.setVariable cell key value).variablesAt other = heap.variablesAt other := by
  simp [Heap.variablesAt,Heap.setVariable,ne]

/-- A cell sees exactly the calls that write it, in their order. -/
theorem variablesAt_writes (heap : Heap) (calls : List (Nat × String × Json))
    (live : cell < heap.vars.length) :
    (heap.writes calls).variablesAt cell =
      bindAll (heap.variablesAt cell) ((calls.filter (·.1 == cell)).map (·.2)) := by
  induction calls generalizing heap with
  | nil => rfl
  | cons call rest ih =>
    obtain ⟨target,key,value⟩ := call
    have live' : cell < (heap.setVariable target key value).vars.length := by
      simpa [Heap.setVariable] using live
    have later := ih (heap.setVariable target key value) live'
    simp only [Heap.writes,List.foldl_cons] at later ⊢
    rw [later]
    by_cases same : target = cell
    · subst same
      simp [variablesAt_setVariable_same live,bindAll]
    · simp [variablesAt_setVariable_ne same,same]

/-- Who calls `set_variable` after the `detach` step. -/
inductive Side
  | parent
  | task
deriving DecidableEq

/-- The calls of both sides in the order in which they happen, with the cell each writes. -/
def targets (parent task : Nat) (calls : List (Side × String × Json)) : List (Nat × String × Json) :=
  calls.map fun call => (match call.1 with | .parent => parent | .task => task,call.2)

def ownCalls (side : Side) (calls : List (Side × String × Json)) : List (String × Json) :=
  (calls.filter (·.1 == side)).map (·.2)

theorem filter_targets (ne : parent ≠ task) (calls : List (Side × String × Json)) :
    ((targets parent task calls).filter (·.1 == parent)).map (·.2) = ownCalls .parent calls ∧
      ((targets parent task calls).filter (·.1 == task)).map (·.2) = ownCalls .task calls := by
  induction calls with
  | nil => exact ⟨rfl,rfl⟩
  | cons call rest ih =>
    obtain ⟨side,binding⟩ := call
    cases side <;> simp_all [targets,ownCalls,Ne.symm ne]

/-- What a context keeps to itself after a snapshot, whatever both sides write then. -/
structure Isolated (heap : Heap) (ctx : ExecutionContext heap) (calls : List (Side × String × Json)) :
    Prop where
  parent : ((heap.snapshot ctx).1.writes (targets ctx.vars (heap.snapshot ctx).2.vars calls)).variablesAt
    ctx.vars = bindAll (heap.variablesAt ctx.vars) (ownCalls .parent calls)
  task : ((heap.snapshot ctx).1.writes (targets ctx.vars (heap.snapshot ctx).2.vars calls)).variablesAt
    (heap.snapshot ctx).2.vars = bindAll (heap.variablesAt ctx.vars) (ownCalls .task calls)
  request : (heap.snapshot ctx).2.request = ctx.request
  guards : (heap.snapshot ctx).2.guardStack.val ≠ ctx.guardStack.val
  state : (heap.snapshot ctx).1.state = heap.state

theorem snapshot_isolated (heap : Heap) (ctx : ExecutionContext heap)
    (calls : List (Side × String × Json)) : Isolated heap ctx calls := by
  have older : ctx.vars.val < heap.vars.length := ctx.vars.isLt
  have ne : ctx.vars.val ≠ heap.vars.length := Nat.ne_of_lt older
  have live : ctx.vars.val < (heap.snapshot ctx).1.vars.length := by
    simp only [Heap.snapshot,List.length_append,List.length_singleton]
    omega
  have copied : (heap.snapshot ctx).1.variablesAt heap.vars.length = heap.variablesAt ctx.vars := by
    simp [Heap.snapshot,Heap.variablesAt]
  have kept : (heap.snapshot ctx).1.variablesAt ctx.vars = heap.variablesAt ctx.vars := by
    simp only [Heap.snapshot,Heap.variablesAt]
    rw [List.getElem?_append_left older]
  obtain ⟨own,others⟩ := filter_targets ne calls
  refine ⟨?_,?_,rfl,Nat.ne_of_gt ctx.guardStack.isLt,rfl⟩
  · rw [variablesAt_writes _ _ live,kept]
    exact congrArg _ own
  · rw [variablesAt_writes _ _ (heap.snapshot ctx).2.vars.isLt]
    exact (congrArg₂ bindAll copied others)

/-- A `detach` stays within its cap, and its task and its parent do not see each other's
variables. -/
theorem detach_capped_isolated (n : Nat) :
    (∀ actions, Transition.Along Detach.step (Detach.Capped n) (Detach.new (some n)) actions) ∧
      ∀ (heap : Heap) (ctx : ExecutionContext heap) (calls : List (Side × String × Json)),
        Isolated heap ctx calls :=
  ⟨Detach.capped_along n,snapshot_isolated⟩

end Ruuter
