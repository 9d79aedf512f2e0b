import Ruuter.Accounting
import Ruuter.Lib.Linearize

/-! Interleaved calls of the state store (`src/state/mod.rs`) take effect one by one: what the entries
and the answers are, in every interleaving of their accesses, whatever keys share a shard. Only the
cap is judged on counts of its own, so a rejected call has no place in the order. -/
namespace Ruuter.StateStore
open Transition Table Linearize

abbrev Entries := AList fun _ : StateKey => Json

/-- What a call that is not rejected does to the entries, and its answer. -/
def Call.perform : Call → Entries → Entries × Option Json
  | .set target value, entries => (entries.insert target value,none)
  | .delete target, entries => (entries.erase target,entries.lookup target)
  | .update target f, entries =>
    let next := f (some ((entries.lookup target).getD .null))
    (entries.insert target next,some next)

/-- The answer of a call that has taken effect, already settled when it is about to count. -/
def Phase.answer : Phase → Option (Option Json)
  | .removed value => some (some value)
  | .entered next => some (some next)
  | .returned (.ok answer) => some answer
  | _ => none

/-- Calls that all start on one store. -/
def invoke (s : StateStore) (calls : List Call) : Machine :=
  { store := s, calls := calls.map fun call => ⟨call,.invoked⟩ }

def Machine.answer (m : Machine) (c : Nat) : Option (Option Json) :=
  (m.calls[c]?).bind fun r => r.phase.answer

/-- Call number `c`, run alone. -/
def performed (calls : List Call) (c : Nat) (entries : Entries) : Entries × Option Json :=
  match calls[c]? with
  | some call => call.perform entries
  | none => (entries,none)

/-- An order in which the calls that have taken effect explain the entries and the answers. -/
abbrev Linearizes (s : StateStore) (calls : List Call) (m : Machine) (order : List Nat) : Prop :=
  Explains (fun m : Machine => m.store.inner) Machine.answer (performed calls) s.inner m order

variable {s t : StateStore} {call : Call} {phase phase' : Phase} {m n : Machine} {target : StateKey}

theorem erase_absent {entries : Entries} (absent : entries.lookup target = none) :
    entries.erase target = entries := by
  have gone : target ∉ entries := AList.lookup_eq_none.mp absent
  apply AList.ext
  exact List.kerase_of_notMem_keys gone

/-- A call takes effect in one access, whatever else it does before and after. -/
theorem access_effect (made : access s call phase = some (t,phase')) :
    t.inner = s.inner ∧ phase'.answer = phase.answer ∨
    phase.answer = none ∧ t.inner = (call.perform s.inner).1 ∧
      phase'.answer = some (call.perform s.inner).2 := by
  cases call with
  | set target value =>
    cases phase <;> simp only [access,reduceCtorEq] at made
    all_goals first
      | (repeat' split at made) <;> cases made <;> first
        | exact .inl ⟨rfl,rfl⟩
        | exact .inr ⟨rfl,rfl,rfl⟩
  | delete target =>
    cases phase <;> simp only [access,reduceCtorEq] at made
    case invoked =>
      split at made
      · rename_i missing
        cases made
        refine .inr ⟨rfl,?_,?_⟩ <;> simp only [Call.perform,Phase.answer]
        · rw [erase_absent missing]
        · rw [missing]
      · rename_i value found
        split at made <;> cases made <;> refine .inr ⟨rfl,rfl,?_⟩ <;>
          simp only [Call.perform,Phase.answer,found]
    case removed value =>
      cases made
      exact .inl ⟨inner_decrement,rfl⟩
  | update target f =>
    cases phase <;> simp only [access,reduceCtorEq] at made
    case invoked =>
      cases made
      refine .inl ⟨rfl,?_⟩
      split <;> rfl
    case missed =>
      (repeat' split at made) <;> cases made <;> exact .inl ⟨rfl,rfl⟩
    case found | admitted =>
      cases made
      exact .inr ⟨rfl,rfl,rfl⟩
    case entered next =>
      cases made
      refine .inl ⟨?_,rfl⟩
      split <;> rfl

@[simp] theorem answer_invoke (s : StateStore) (calls : List Call) (c : Nat) :
    (invoke s calls).answer c = none := by
  simp only [Machine.answer,invoke,List.getElem?_map]
  cases calls[c]? <;> rfl

@[simp] theorem calls_invoke (s : StateStore) (calls : List Call) :
    (invoke s calls).calls.map (·.call) = calls := by
  simp [invoke,Function.comp_def]

/-- A step of a call moves no other call, and no call changes. -/
theorem step_atomic [DecidableEq σ] {shard : StateKey → σ} {calls : List Call}
    (same : m.calls.map (·.call) = calls) (taken : step shard m c = some n) :
    n.calls.map (·.call) = calls ∧
      Atomic (fun m : Machine => m.store.inner) Machine.answer (performed calls) m n := by
  obtain ⟨call,phase,t,phase',found,-,made,rfl⟩ := step_cases taken
  obtain ⟨below,at_c⟩ := List.getElem?_eq_some_iff.mp found
  have here : performed calls c = call.perform := by
    funext entries
    simp [performed,← same,found]
  have before : m.answer c = phase.answer := by
    simp [Machine.answer,found]
  have after : Machine.answer { store := t, calls := m.calls.set c ⟨call,phase'⟩ } c = phase'.answer := by
    simp [Machine.answer,below]
  have others : ∀ d, d ≠ c →
      Machine.answer { store := t, calls := m.calls.set c ⟨call,phase'⟩ } d = m.answer d := by
    intro d ne
    simp [Machine.answer,List.getElem?_set_ne (Ne.symm ne)]
  refine ⟨?_,?_⟩
  · have inside : c < (m.calls.map (·.call)).length := by simpa using below
    have mine : (m.calls.map (·.call))[c] = call := by simp [at_c]
    rw [List.map_set]
    dsimp only
    rw [← mine,List.set_getElem_self,same]
  · rcases access_effect made with ⟨entries,answer⟩ | ⟨pending,entries,answer⟩
    · refine .silent entries ?_
      intro d
      by_cases eq : d = c
      · rw [eq,after,before,answer]
      · exact others d eq
    · refine .effect c (before.trans pending) ?_ ?_ others
      · rw [here]
        exact entries
      · rw [after,here]
        exact answer

/-- One order explains the entries and the answers of a run at its end and, by its initial parts, at every
moment on the way. A call that has taken effect at some moment comes before one that has not, so the
order agrees with the order in which calls return and start. -/
theorem calls_linearize [DecidableEq σ] (shard : StateKey → σ) (s : StateStore) (calls : List Call)
    (schedule : List Nat) (ran : exec (step shard) (invoke s calls) schedule = some m) :
    ∃ order, Linearizes s calls m order ∧
      (∀ before n, before <+: schedule → exec (step shard) (invoke s calls) before = some n →
        ∃ early, early <+: order ∧ Linearizes s calls n early) ∧
      ∀ before n c d, before <+: schedule → exec (step shard) (invoke s calls) before = some n →
        (n.answer c).isSome = true → n.answer d = none → d ∈ order →
        ∃ p q r, order = p ++ c :: q ++ d :: r := by
  obtain ⟨order,explains,moments⟩ := traced_of_atomic (fun m : Machine => m.store.inner) Machine.answer
    (performed calls) (I := fun m => m.calls.map (·.call) = calls) (calls_invoke s calls)
    (answer_invoke s calls) (fun _ _ _ => step_atomic) ran
  refine ⟨order,explains,moments,?_⟩
  intro before n c d first reached done pending later
  obtain ⟨early,initial,known⟩ := moments before n first reached
  exact explains.precedes known initial done pending later

def wrap (old : Option Json) : Json := .array [old.getD .null]

def rivals : List Call := [.update oneKey wrap,.set oneKey (.bool true),.delete oneKey,.update oneKey wrap]

/-- Two updates, a `set` and a `delete` of one key, all of one shard: the second update answers what the
first has written, wrapped once more. -/
theorem calls_linearize_rivals :
    ∃ m order, exec (step fun _ => ()) (invoke {} rivals) [0,3,0,3,0,0,3,3,1,2] = some m ∧
      Linearizes {} rivals m order := by
  obtain ⟨order,linear,-⟩ := calls_linearize (fun _ => ()) {} rivals [0,3,0,3,0,0,3,3,1,2] rfl
  exact ⟨_,order,rfl,linear⟩

/-- The call has taken effect on the key. -/
def wrote (target : StateKey) (r : Running) : Bool := r.call.target == target && r.phase.answer.isSome

/-- What one update leaves under its key. -/
def bumped (f : Option Json → Json) (old : Option Json) : Option Json := some (f (some (old.getD .null)))

theorem lookup_perform_ne {entries : Entries} (ne : call.target ≠ target) :
    (call.perform entries).1.lookup target = entries.lookup target := by
  cases call with
  | set | update => exact AList.lookup_insert_ne (Ne.symm ne)
  | delete => exact AList.lookup_erase_ne (Ne.symm ne)

/-- The key holds one update for each update that has been written. -/
def Accumulates (s : StateStore) (calls : List Call) (target : StateKey) (f : Option Json → Json)
    (m : Machine) : Prop :=
  m.calls.map (·.call) = calls ∧
    m.store.inner.lookup target = (bumped f)^[m.calls.countP (wrote target)] (s.inner.lookup target)

theorem Accumulates.step [DecidableEq σ] {shard : StateKey → σ} {calls : List Call} {f : Option Json → Json}
    (only : ∀ call ∈ calls, call.target = target → call = .update target f)
    (acc : Accumulates s calls target f m) (taken : step shard m c = some n) :
    Accumulates s calls target f n := by
  obtain ⟨call,phase,t,phase',found,-,made,rfl⟩ := step_cases taken
  refine ⟨(step_atomic acc.1 taken).1,?_⟩
  have counted := countP_set_row found ⟨call,phase'⟩ (wrote target)
  have known : call ∈ calls := by
    rw [← acc.1]
    exact List.mem_map.mpr ⟨_,List.mem_of_getElem? found,rfl⟩
  have before := acc.2
  dsimp only
  rcases access_effect made with ⟨entries,answer⟩ | ⟨pending,entries,answer⟩
  · have same : wrote target ⟨call,phase'⟩ = wrote target ⟨call,phase⟩ := by simp [wrote,answer]
    rw [same] at counted
    rw [entries,Nat.add_right_cancel counted]
    exact before
  · have old : wrote target ⟨call,phase⟩ = false := by simp [wrote,pending]
    by_cases here : call.target = target
    · cases only call known here
      have new : wrote target ⟨.update target f,phase'⟩ = true := by simp [wrote,answer,Call.target]
      simp only [old,new,Bool.false_eq_true,if_false,if_true,Nat.add_zero] at counted
      rw [counted,Function.iterate_succ_apply',← before,entries]
      exact AList.lookup_insert m.store.inner
    · have new : wrote target ⟨call,phase'⟩ = false := by simp [wrote,here]
      simp only [old,new,Bool.false_eq_true,if_false,Nat.add_zero] at counted
      rw [counted,entries,lookup_perform_ne here]
      exact before

/-- Where all calls on a key are updates by one function, none of them is lost: once all calls have
returned, the key holds as many of them as were not rejected. -/
theorem updates_accumulate [DecidableEq σ] (shard : StateKey → σ) (s : StateStore) (calls : List Call)
    (target : StateKey) (f : Option Json → Json)
    (only : ∀ call ∈ calls, call.target = target → call = .update target f) (schedule : List Nat)
    (ran : exec (step shard) (invoke s calls) schedule = some m) :
    m.store.inner.lookup target = (bumped f)^[m.calls.countP (wrote target)] (s.inner.lookup target) := by
  have start : Accumulates s calls target f (invoke s calls) := by
    refine ⟨calls_invoke s calls,?_⟩
    have none : (invoke s calls).calls.countP (wrote target) = 0 := by
      simp [invoke,wrote,Phase.answer,List.countP_eq_zero]
    rw [none]
    rfl
  exact (exec_history (I := fun _ m => Accumulates s calls target f m) start
    (fun _ _ _ _ acc taken => acc.step only taken) ran).2

def beside : List Call := [.update oneKey wrap,.set ⟨"p","j"⟩ .null,.update oneKey wrap]

/-- Beside a `set` of another key, two updates of one key leave it wrapped twice. -/
theorem updates_accumulate_two :
    ∃ m, exec (step fun _ => ()) (invoke {} beside) [0,2,1,0,2,1,2,2,0,0] = some m ∧
      m.store.inner.lookup oneKey = (bumped wrap)^[m.calls.countP (wrote oneKey)] none := by
  refine ⟨_,rfl,updates_accumulate (fun _ => ()) {} beside oneKey wrap ?_ [0,2,1,0,2,1,2,2,0,0] rfl⟩
  intro call known here
  simp only [beside,List.mem_cons,List.not_mem_nil,or_false] at known
  rcases known with rfl | rfl | rfl
  · rfl
  · exact absurd here (by decide)
  · rfl

end Ruuter.StateStore
