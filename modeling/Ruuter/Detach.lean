import Ruuter.Lib.Table
import Ruuter.Lib.Transition
import Ruuter.Step

/-! The registry of detached tasks (`src/steps/detach.rs`): permits, the lock around the
`JoinSet`, the tasks themselves and the drain at shutdown. Calls of `try_spawn` and tasks
are numbered in the order in which they appear; the number of a call stands for the permit
it acquires. A detached task can call `try_spawn` in turn. -/
namespace Ruuter.Detach
open Transition Table

/-- Who takes the `tasks` lock. -/
inductive Party
  | call (number : Nat)
  | drain
deriving DecidableEq

/-- Where a call of `try_spawn` stands: turned away with `DetachOverflow`, waiting for the
lock with its permit, holding the lock before and after `tasks.spawn`, returned with `Ok`,
or dropped at the lock await together with the future it is part of. -/
inductive CallPhase
  | refused
  | waiting
  | locked
  | spawned
  | returned
  | dropped
deriving DecidableEq

/-- A call of `try_spawn` by a request, or by the detached task `owner`. -/
structure SpawnCall where
  owner : Option Nat
  phase : CallPhase

/-- A finished task stays in the `JoinSet` until it is joined. -/
inductive TaskPhase
  | running
  | finished
  | joined
deriving DecidableEq

/-- A detached task, with the call that spawned it and whose permit it took over. -/
structure Task where
  origin : Nat
  phase : TaskPhase

inductive DrainPhase
  | idle
  | waiting
  | joining
  | aborting
  | done
deriving DecidableEq

/-- The permits left in the semaphore (`none` without `max_inflight`), the permits given
back so far, and both sides of the `tasks` lock: its FIFO queue and its holder. -/
structure State where
  available : Option Nat
  released : List Nat := []
  calls : List SpawnCall := []
  tasks : List Task := []
  queue : List Party := []
  lock : Option Party := none
  drain : DrainPhase := .idle

/-- How a detached task ends. -/
inductive End
  | completed
  | panicked
  | timedOut
  | aborted

inductive Action
  | trySpawn (owner : Option Nat)
  | lock
  | spawn (call : Nat)
  | unlock (call : Nat)
  | cancel (call : Nat)
  | finish (task : Nat) (how : End)
  | drain
  | join (task : Nat)
  | expire
  | close

namespace CallPhase

/-- The permit is with the call and not yet with a task. -/
def holds : CallPhase → Bool
  | .waiting | .locked => true
  | _ => false

/-- The call has got a permit. -/
def admitted : CallPhase → Bool
  | .refused => false
  | _ => true

theorem admitted_of_holds {phase : CallPhase} (held : phase.holds = true) : phase.admitted = true := by
  cases phase <;> simp_all [holds,admitted]

/-- The call has not returned. -/
def pending : CallPhase → Bool
  | .waiting | .locked | .spawned => true
  | _ => false

end CallPhase

/-- `DetachRegistry::new`. -/
def new (maxInflight : Option Nat) : State := { available := maxInflight }

namespace State

/-- `DetachRegistry::inflight`: the length of the `JoinSet`. -/
def inflight (s : State) : Nat := s.tasks.countP (·.phase ≠ .joined)

/-- The detached tasks that have not finished. Each holds its permit. -/
def unfinished (s : State) : Nat := s.tasks.countP (·.phase = .running)

/-- The task is inside a call of `try_spawn`. -/
def busy (s : State) (t : Nat) : Bool := s.calls.any fun c => c.owner == some t && c.phase.pending

/-- The task has spawned and still holds the lock: there is no await before it returns. -/
def committed (s : State) (t : Nat) : Bool :=
  s.calls.any fun c => c.owner == some t && c.phase == .spawned

/-- A permit is dropped. -/
def release (s : State) (permit : Nat) : State :=
  match s.available with
  | none => s
  | some left => { s with available := some (left + 1), released := s.released ++ [permit] }

def setCall (s : State) (i : Nat) (call : SpawnCall) : State :=
  { s with calls := s.calls.set i call }

def setTask (s : State) (t : Nat) (task : Task) : State :=
  { s with tasks := s.tasks.set t task }

def addTask (s : State) (origin : Nat) : State :=
  { s with tasks := s.tasks ++ [⟨origin,.running⟩] }

/-- A call is dropped at the lock await: it leaves the queue, or gives the lock back that it
has just been granted, and its permit goes with it. -/
def abandon (s : State) (i : Nat) : State :=
  match s.calls[i]? with
  | some ⟨owner,.waiting⟩ =>
    ({ s with queue := s.queue.erase (.call i) }.setCall i ⟨owner,.dropped⟩).release i
  | some ⟨owner,.locked⟩ => ({ s with lock := none }.setCall i ⟨owner,.dropped⟩).release i
  | _ => s

/-- The call of `try_spawn` that a task is in. -/
def callOf (s : State) (t : Nat) : Option Nat :=
  s.calls.findIdx? fun c => c.owner == some t && c.phase.pending

/-- A task ends by itself outside `try_spawn`; `timeout_ms` and `abort_all` cut it off at
any await. -/
def mayEnd (s : State) (t : Nat) : End → Bool
  | .completed | .panicked => !s.busy t
  | .timedOut => !s.committed t
  | .aborted => !s.committed t && s.drain == .aborting

end State

def step (s : State) : Action → Option State
  | .trySpawn owner =>
    if owner.all fun t => s.tasks[t]?.any (·.phase == .running) && !s.busy t then
      match s.available with
      | some 0 => some { s with calls := s.calls ++ [⟨owner,.refused⟩] }
      | available => some { s with
          available := available.map (· - 1)
          calls := s.calls ++ [⟨owner,.waiting⟩]
          queue := s.queue ++ [.call s.calls.length] }
    else none
  | .lock =>
    match s.lock, s.queue with
    | none, .call i :: rest =>
      match s.calls[i]? with
      | some ⟨owner,.waiting⟩ =>
        some ({ s with lock := some (.call i), queue := rest }.setCall i ⟨owner,.locked⟩)
      | _ => none
    | none, .drain :: rest => some { s with lock := some .drain, queue := rest, drain := .joining }
    | _, _ => none
  | .spawn i =>
    match s.calls[i]? with
    | some ⟨owner,.locked⟩ =>
      some ((s.addTask i).setCall i ⟨owner,.spawned⟩)
    | _ => none
  | .unlock i =>
    match s.calls[i]? with
    | some ⟨owner,.spawned⟩ => some ({ s with lock := none }.setCall i ⟨owner,.returned⟩)
    | _ => none
  | .cancel i =>
    match s.calls[i]? with
    | some ⟨none,.waiting⟩ | some ⟨none,.locked⟩ => some (s.abandon i)
    | _ => none
  | .finish t how =>
    match s.tasks[t]? with
    | some ⟨i,.running⟩ =>
      if s.mayEnd t how then
        let s := (s.callOf t).elim s s.abandon
        some ((s.release i).setTask t ⟨i,.finished⟩)
      else none
    | _ => none
  | .drain =>
    if s.drain = .idle then some { s with drain := .waiting, queue := s.queue ++ [.drain] } else none
  | .join t =>
    match s.tasks[t]? with
    | some ⟨i,.finished⟩ =>
      if s.drain = .joining ∨ s.drain = .aborting then
        some (s.setTask t ⟨i,.joined⟩)
      else none
    | _ => none
  | .expire => if s.drain = .joining then some { s with drain := .aborting } else none
  | .close =>
    if (s.drain = .joining ∨ s.drain = .aborting) ∧ s.inflight = 0 then
      some { s with drain := .done, lock := none }
    else none

/-- The changes that transitions are made of. A caller is admitted under `C`. -/
inductive Move (C : State → Option Nat → Prop) (s : State) : State → Prop
  | refuse (full : s.available = some 0) : Move C s { s with calls := s.calls ++ [⟨owner,.refused⟩] }
  | acquire (room : s.available ≠ some 0) (calm : C s owner) : Move C s { s with
      available := s.available.map (· - 1)
      calls := s.calls ++ [⟨owner,.waiting⟩]
      queue := s.queue ++ [.call s.calls.length] }
  | grant (free : s.lock = none) (head : s.queue = .call i :: rest)
      (found : s.calls[i]? = some ⟨owner,.waiting⟩) :
      Move C s ({ s with lock := some (.call i), queue := rest }.setCall i ⟨owner,.locked⟩)
  | take (free : s.lock = none) (head : s.queue = .drain :: rest) :
      Move C s { s with lock := some .drain, queue := rest, drain := .joining }
  | spawn (found : s.calls[i]? = some ⟨owner,.locked⟩) :
      Move C s ((s.addTask i).setCall i ⟨owner,.spawned⟩)
  | unlock (found : s.calls[i]? = some ⟨owner,.spawned⟩) :
      Move C s ({ s with lock := none }.setCall i ⟨owner,.returned⟩)
  | leave (found : s.calls[i]? = some ⟨owner,.waiting⟩) :
      Move C s (({ s with queue := s.queue.erase (.call i) }.setCall i ⟨owner,.dropped⟩).release i)
  | giveBack (found : s.calls[i]? = some ⟨owner,.locked⟩) :
      Move C s (({ s with lock := none }.setCall i ⟨owner,.dropped⟩).release i)
  | finish {t : Nat} (found : s.tasks[t]? = some ⟨i,.running⟩) :
      Move C s ((s.release i).setTask t ⟨i,.finished⟩)
  | drain (idle : s.drain = .idle) : Move C s { s with drain := .waiting, queue := s.queue ++ [.drain] }
  | join {t : Nat} (found : s.tasks[t]? = some ⟨i,.finished⟩)
      (draining : s.drain = .joining ∨ s.drain = .aborting) : Move C s (s.setTask t ⟨i,.joined⟩)
  | expire (draining : s.drain = .joining) : Move C s { s with drain := .aborting }
  | close (draining : s.drain = .joining ∨ s.drain = .aborting) (empty : s.inflight = 0) :
      Move C s { s with drain := .done, lock := none }

variable {s t u v : State} {owner : Option Nat} {task : Task} {n i : Nat}
  {C : State → Option Nat → Prop}

theorem abandon_move (s : State) (i : Nat) : s.abandon i = s ∨ Move C s (s.abandon i) := by
  simp only [State.abandon]
  split
  · rename_i found
    exact .inr (.leave found)
  · rename_i found
    exact .inr (.giveBack found)
  · exact .inl rfl

@[simp] theorem tasks_release : (s.release i).tasks = s.tasks := by
  simp only [State.release]
  split <;> rfl

theorem tasks_abandon : (s.abandon i).tasks = s.tasks := by
  simp only [State.abandon]
  split <;> simp [State.setCall]

/-- What every move keeps, every transition keeps. -/
theorem step_keeps {I : State → Prop} (kept : ∀ s u, I s → Move C s u → I u)
    (calm : ∀ owner, a = .trySpawn owner → s.available ≠ some 0 → C s owner)
    (taken : step s a = some u) (before : I s) : I u := by
  have dropped : ∀ i, I (s.abandon i) := by
    intro i
    rcases abandon_move s i with same | move
    · rw [same]
      exact before
    · exact kept s _ before move
  cases a <;> simp only [step] at taken
  case trySpawn owner =>
    split at taken
    · split at taken <;> cases taken
      · exact kept s _ before (.refuse (by assumption))
      · rename_i room
        exact kept s _ before (.acquire room (calm owner rfl room))
    · cases taken
  case lock =>
    split at taken
    · split at taken
      · cases taken
        exact kept s _ before (.grant (by assumption) (by assumption) (by assumption))
      · cases taken
    · cases taken
      exact kept s _ before (.take (by assumption) (by assumption))
    · cases taken
  case spawn i =>
    split at taken
    · cases taken
      exact kept s _ before (.spawn (by assumption))
    · cases taken
  case unlock i =>
    split at taken
    · cases taken
      exact kept s _ before (.unlock (by assumption))
    · cases taken
  case cancel i =>
    split at taken
    · cases taken
      exact dropped i
    · cases taken
      exact dropped i
    · cases taken
  case finish t how =>
    split at taken
    · rename_i i found
      split at taken
      · cases taken
        cases s.callOf t with
        | none => exact kept s _ before (.finish found)
        | some j =>
          have found' : (s.abandon j).tasks[t]? = some ⟨i,.running⟩ := by
            rw [tasks_abandon]
            exact found
          exact kept _ _ (dropped j) (.finish found')
      · cases taken
    · cases taken
  case drain =>
    split at taken <;> cases taken
    exact kept s _ before (.drain (by assumption))
  case join t =>
    split at taken
    · split at taken <;> cases taken
      exact kept s _ before (.join (by assumption) (by assumption))
    · cases taken
  case expire =>
    split at taken <;> cases taken
    exact kept s _ before (.expire (by assumption))
  case close =>
    split at taken <;> cases taken
    rename_i ready
    exact kept s _ before (.close ready.1 ready.2)

namespace State

/-- The permit has been handed out. -/
def acquired (s : State) (permit : Nat) : Bool := s.calls[permit]?.any (·.phase.admitted)

/-- The permit is with its call. -/
def withCall (s : State) (permit : Nat) : Bool := s.calls[permit]?.any (·.phase.holds)

/-- The permit is with the task of its call. -/
def withTask (s : State) (permit : Nat) : Nat :=
  s.tasks.countP fun task => task.origin == permit && task.phase == .running

end State

/-- What the semaphore and the permits have in common: none is lost, none is given back
twice, and a call that was turned away has no task. -/
structure Permits (n : Nat) (s : State) : Prop where
  level : ∃ left, s.available = some left ∧ left + s.calls.countP (·.phase.holds) + s.unfinished = n
  once : ∀ permit, s.released.count permit + (s.withCall permit).toNat + s.withTask permit =
    (s.acquired permit).toNat
  origin : ∀ task ∈ s.tasks, s.acquired task.origin = true

theorem new_permits (n : Nat) : Permits n (new (some n)) where
  level := ⟨n,rfl,by simp [new,State.unfinished]⟩
  once := by simp [new,State.withCall,State.withTask,State.acquired]
  origin := by simp [new]

/-- A column of a call table after one row has changed. -/
theorem any_set {calls : List SpawnCall} {old new : SpawnCall} (found : calls[i]? = some old)
    (p : SpawnCall → Bool) (j : Nat) :
    (calls.set i new)[j]?.any p = if i = j then p new else calls[j]?.any p := by
  by_cases same : i = j
  · subst same
    obtain ⟨below,-⟩ := List.getElem?_eq_some_iff.mp found
    simp [below]
  · simp [same]

theorem any_snoc (calls : List SpawnCall) (call : SpawnCall) (p : SpawnCall → Bool) (j : Nat) :
    (calls ++ [call])[j]?.any p = if calls.length = j then p call else calls[j]?.any p := by
  by_cases same : calls.length = j
  · subst same
    simp
  · by_cases below : j < calls.length
    · simp [same,List.getElem?_append_left below]
    · have beyond : (calls ++ [call])[j]? = none := by
        rw [List.getElem?_eq_none_iff]
        simp
        omega
      have beyond' : calls[j]? = none := by
        rw [List.getElem?_eq_none_iff]
        omega
      simp [same,beyond,beyond']

/-- The permit of a dropped call goes back to the semaphore. -/
theorem Permits.drop (inv : Permits n s) (found : s.calls[i]? = some ⟨owner,phase⟩)
    (holds : phase.holds = true) (calls : v.calls = s.calls.set i ⟨owner,.dropped⟩)
    (available : v.available = s.available) (released : v.released = s.released)
    (tasks : v.tasks = s.tasks) : Permits n (v.release i) := by
  obtain ⟨left,level,sum⟩ := inv.level
  have row : (s.calls.set i ⟨owner,.dropped⟩).countP (·.phase.holds) + 1 =
      s.calls.countP (·.phase.holds) := by
    have moved := countP_set_row found ⟨owner,.dropped⟩ (·.phase.holds)
    have gone : CallPhase.dropped.holds = false := rfl
    simpa [holds,gone] using moved
  have shape : v.release i = { v with available := some (left + 1), released := s.released ++ [i] } := by
    simp [State.release,available,level,released]
  rw [shape]
  refine ⟨⟨left + 1,rfl,?_⟩,?_,?_⟩
  · simp only [State.unfinished,calls,tasks] at sum ⊢
    omega
  · intro permit
    have once := inv.once permit
    simp only [State.withCall,State.withTask,State.acquired,calls,tasks,any_set found] at once ⊢
    by_cases same : i = permit
    · subst same
      have gone : CallPhase.dropped.holds = false := rfl
      have got : CallPhase.dropped.admitted = true := rfl
      simp [found,holds,CallPhase.admitted_of_holds holds] at once
      simp [gone,got,once]
    · have other : List.count permit [i] = 0 := by simp [same]
      simp only [List.count_append,other,same,if_false] at once ⊢
      omega
  · intro task member
    have old := inv.origin task (tasks ▸ member)
    simp only [State.acquired,calls,any_set found] at old ⊢
    by_cases same : i = task.origin
    · simp [same,CallPhase.admitted]
    · simpa [same] using old

/-- A call that keeps its permit, or never had one, changes phase. -/
theorem Permits.advance (inv : Permits n s) (found : s.calls[i]? = some ⟨owner,phase⟩)
    (phase' : CallPhase) (holds : phase'.holds = phase.holds) (admitted : phase'.admitted = phase.admitted)
    (calls : v.calls = s.calls.set i ⟨owner,phase'⟩) (available : v.available = s.available)
    (released : v.released = s.released) (tasks : v.tasks = s.tasks) : Permits n v := by
  obtain ⟨left,level,sum⟩ := inv.level
  have row := countP_set_row found ⟨owner,phase'⟩ (·.phase.holds)
  have held : ∀ permit, v.withCall permit = s.withCall permit := by
    intro permit
    simp only [State.withCall,calls,any_set found]
    by_cases same : i = permit
    · subst same
      simp [found,holds]
    · simp [same]
  have got : ∀ permit, v.acquired permit = s.acquired permit := by
    intro permit
    simp only [State.acquired,calls,any_set found]
    by_cases same : i = permit
    · subst same
      simp [found,admitted]
    · simp [same]
  refine ⟨⟨left,available.trans level,?_⟩,?_,?_⟩
  · simp only [State.unfinished,calls,tasks,holds] at sum row ⊢
    omega
  · intro permit
    rw [released,held,got,State.withTask,tasks]
    exact inv.once permit
  · intro task member
    rw [got]
    exact inv.origin task (tasks ▸ member)

/-- A new call arrives, with a permit or without. -/
theorem Permits.arrive (inv : Permits n s) (phase : CallPhase) (same : phase.holds = phase.admitted)
    (calls : v.calls = s.calls ++ [⟨owner,phase⟩]) (released : v.released = s.released)
    (tasks : v.tasks = s.tasks)
    (level : ∃ left, v.available = some left ∧
      left + s.calls.countP (·.phase.holds) + s.unfinished + phase.holds.toNat = n) : Permits n v := by
  obtain ⟨left,available,sum⟩ := level
  have last : s.calls[s.calls.length]? = none := by simp
  refine ⟨⟨left,available,?_⟩,?_,?_⟩
  · cases holds : phase.holds <;> simp [State.unfinished,calls,tasks,holds] at sum ⊢ <;> omega
  · intro permit
    have once := inv.once permit
    simp only [State.withCall,State.withTask,State.acquired,calls,tasks,released,any_snoc] at once ⊢
    by_cases new : s.calls.length = permit
    · subst new
      simp only [last,Option.any_none,Bool.toNat_false] at once
      simp only [if_true,same]
      omega
    · simpa [new] using once
  · intro task member
    have old := inv.origin task (tasks ▸ member)
    simp only [State.acquired,calls,any_snoc] at old ⊢
    by_cases new : s.calls.length = task.origin
    · rw [← new,last] at old
      cases old
    · simpa [new] using old

/-- A task changes phase; the permit of one that stops running has gone back. -/
theorem Permits.settle {t : Nat} (inv : Permits n s) (found : s.tasks[t]? = some ⟨i,.running⟩) :
    Permits n ((s.release i).setTask t ⟨i,.finished⟩) := by
  obtain ⟨left,level,sum⟩ := inv.level
  have row := countP_set_row found ⟨i,.finished⟩ (·.phase = .running)
  have shape : (s.release i).setTask t ⟨i,.finished⟩ = { s with
      available := some (left + 1), released := s.released ++ [i],
      tasks := s.tasks.set t ⟨i,.finished⟩ } := by
    simp [State.release,State.setTask,level]
  rw [shape]
  refine ⟨⟨left + 1,rfl,?_⟩,?_,?_⟩
  · simp [State.unfinished] at sum row ⊢
    omega
  · intro permit
    have once := inv.once permit
    have own := countP_set_row found ⟨i,.finished⟩ (fun task => task.origin == permit && task.phase == .running)
    simp only [State.withCall,State.withTask,State.acquired,List.count_append] at once own ⊢
    by_cases same : i = permit
    · subst same
      simp at own ⊢
      omega
    · have other : List.count permit [i] = 0 := by simp [same]
      simp [same] at own ⊢
      omega
  · intro task member
    rcases List.mem_or_eq_of_mem_set member with old | rfl
    · exact inv.origin task old
    · exact inv.origin ⟨i,.running⟩ (List.mem_of_getElem? found)

theorem Permits.joined {t : Nat} (inv : Permits n s) (found : s.tasks[t]? = some ⟨i,.finished⟩) :
    Permits n (s.setTask t ⟨i,.joined⟩) := by
  obtain ⟨left,level,sum⟩ := inv.level
  have row := countP_set_row found ⟨i,.joined⟩ (·.phase = .running)
  refine ⟨⟨left,level,?_⟩,?_,?_⟩
  · simp [State.unfinished,State.setTask] at sum row ⊢
    omega
  · intro permit
    have once := inv.once permit
    have own := countP_set_row found ⟨i,.joined⟩ (fun task => task.origin == permit && task.phase == .running)
    simp [State.withCall,State.withTask,State.acquired,State.setTask] at once own ⊢
    omega
  · intro task member
    rcases List.mem_or_eq_of_mem_set member with old | rfl
    · exact inv.origin task old
    · exact inv.origin ⟨i,.finished⟩ (List.mem_of_getElem? found)

/-- `tasks.spawn`: the permit moves from the call into the task. -/
theorem Permits.spawn (inv : Permits n s) (found : s.calls[i]? = some ⟨owner,.locked⟩) :
    Permits n ((s.addTask i).setCall i ⟨owner,.spawned⟩) := by
  obtain ⟨left,level,sum⟩ := inv.level
  have row := countP_set_row found ⟨owner,.spawned⟩ (·.phase.holds)
  have before : CallPhase.locked.holds = true := rfl
  have after : CallPhase.spawned.holds = false := rfl
  have got : CallPhase.locked.admitted = true := rfl
  have kept : CallPhase.spawned.admitted = true := rfl
  refine ⟨⟨left,level,?_⟩,?_,?_⟩
  · simp [State.unfinished,State.addTask,State.setCall,List.countP_append,before,after] at sum row ⊢
    omega
  · intro permit
    have once := inv.once permit
    simp only [State.withCall,State.withTask,State.acquired,State.addTask,State.setCall,any_set found,
      List.countP_append] at once ⊢
    by_cases same : i = permit
    · subst same
      simp [found,before,got] at once
      simp [after,kept]
      omega
    · simp [same] at once ⊢
      omega
  · intro task member
    have own : ((s.addTask i).setCall i ⟨owner,.spawned⟩).acquired i = true := by
      simp [State.acquired,State.setCall,State.addTask,any_set found,kept]
    rcases List.mem_append.mp member with old | last
    · have acquired := inv.origin task old
      simp only [State.acquired,State.addTask,State.setCall,any_set found] at acquired ⊢
      by_cases same : i = task.origin
      · simp [same,kept]
      · simpa [same] using acquired
    · obtain rfl := List.mem_singleton.mp last
      exact own

theorem Permits.move (inv : Permits n s) (move : Move C s u) : Permits n u := by
  obtain ⟨left,level,sum⟩ := inv.level
  cases move with
  | refuse full => exact inv.arrive .refused rfl rfl rfl rfl ⟨left,level,sum⟩
  | acquire room calm =>
    have positive : left ≠ 0 := by
      rintro rfl
      exact room level
    have one : CallPhase.waiting.holds.toNat = 1 := rfl
    exact inv.arrive .waiting rfl rfl rfl rfl ⟨left - 1,by simp [level],by rw [one]; omega⟩
  | grant free head found => exact inv.advance found .locked rfl rfl rfl rfl rfl rfl
  | take free head => exact ⟨inv.level,inv.once,inv.origin⟩
  | spawn found => exact inv.spawn found
  | unlock found => exact inv.advance found .returned rfl rfl rfl rfl rfl rfl
  | leave found => exact inv.drop found rfl rfl rfl rfl rfl
  | giveBack found => exact inv.drop found rfl rfl rfl rfl rfl
  | finish found => exact inv.settle found
  | drain idle => exact ⟨inv.level,inv.once,inv.origin⟩
  | join found draining => exact inv.joined found
  | expire draining => exact ⟨inv.level,inv.once,inv.origin⟩
  | close draining empty => exact ⟨inv.level,inv.once,inv.origin⟩

@[simp] theorem drain_release : (s.release i).drain = s.drain := by
  simp only [State.release]
  split <;> rfl

@[simp] theorem queue_release : (s.release i).queue = s.queue := by
  simp only [State.release]
  split <;> rfl

theorem drain_abandon : (s.abandon i).drain = s.drain := by
  simp only [State.abandon]
  split <;> simp [State.setCall]

theorem mem_queue_abandon (member : party ∈ (s.abandon i).queue) : party ∈ s.queue := by
  simp only [State.abandon] at member
  split at member
  · rw [queue_release] at member
    exact List.mem_of_mem_erase member
  · rw [queue_release] at member
    exact member
  · exact member

/-- The cap at one transition: at most `n` tasks hold a permit, every permit handed out is
with its call, with its task or back in the semaphore once, and a call that is turned away
adds nothing but itself. -/
structure Capped (n : Nat) (s : State) (a : Action) (t : State) : Prop where
  bounded : t.unfinished ≤ n
  once : ∀ permit, t.released.count permit + (t.withCall permit).toNat + t.withTask permit =
    (t.acquired permit).toNat
  returned : t.calls.all (!·.phase.holds) = true → t.unfinished = 0 →
    t.available = some n ∧ ∀ permit, t.acquired permit = true → t.released.count permit = 1
  turnedAway : ∀ owner, a = .trySpawn owner → t.acquired s.calls.length = false →
    s.available = some 0 ∧ t = { s with calls := s.calls ++ [⟨owner,.refused⟩] }
  taskless : ∀ task ∈ t.tasks, t.acquired task.origin = true

theorem Permits.unfinished_le (inv : Permits n s) : s.unfinished ≤ n := by
  obtain ⟨left,-,sum⟩ := inv.level
  omega

theorem Permits.returned (inv : Permits n s) (idle : s.calls.all (!·.phase.holds) = true)
    (ended : s.unfinished = 0) :
    s.available = some n ∧ ∀ permit, s.acquired permit = true → s.released.count permit = 1 := by
  obtain ⟨left,level,sum⟩ := inv.level
  have none : s.calls.countP (·.phase.holds) = 0 := by
    rw [List.countP_eq_zero]
    intro call member
    simpa using List.all_eq_true.mp idle call member
  refine ⟨by rw [level]; congr 1; omega,?_⟩
  intro permit acquired
  have once := inv.once permit
  have called : s.withCall permit = false := by
    cases found : s.calls[permit]? with
    | none => simp [State.withCall,found]
    | some call =>
      simpa [State.withCall,found] using List.all_eq_true.mp idle call (List.mem_of_getElem? found)
  have tasked : s.withTask permit = 0 := by
    rw [State.withTask,List.countP_eq_zero]
    rw [State.unfinished,List.countP_eq_zero] at ended
    intro task member
    have stopped := ended task member
    simp at stopped
    simp [stopped]
  rw [called,tasked,acquired] at once
  simpa using once

theorem trySpawn_turnedAway (taken : step s (.trySpawn owner) = some t)
    (refused : t.acquired s.calls.length = false) :
    s.available = some 0 ∧ t = { s with calls := s.calls ++ [⟨owner,.refused⟩] } := by
  simp only [step] at taken
  split at taken
  · split at taken <;> cases taken
    · exact ⟨by assumption,rfl⟩
    · simp [State.acquired,CallPhase.admitted] at refused
  · cases taken

theorem capped_along (n : Nat) (actions : List Action) :
    Along step (Capped n) (new (some n)) actions := by
  apply along_of_invariant (new_permits n)
  intro s a t before taken
  have inv : Permits n t := step_keeps (C := fun _ _ => True) (fun _ _ inv move => inv.move move)
    (by simp) taken before
  refine ⟨inv,inv.unfinished_le,inv.once,inv.returned,?_,inv.origin⟩
  rintro owner rfl refused
  exact trySpawn_turnedAway taken refused

/-- Before shutdown: nobody has called `drain`. -/
structure Idle (s : State) : Prop where
  drain : s.drain = .idle
  queue : Party.drain ∉ s.queue

theorem Idle.step (idle : Idle s) (taken : step s a = some u) (quiet : a ≠ .drain) : Idle u := by
  have dropped : ∀ i, Idle (s.abandon i) := fun i =>
    ⟨drain_abandon.trans idle.drain,fun member => idle.queue (mem_queue_abandon member)⟩
  cases a <;> simp only [Detach.step] at taken
  case trySpawn owner =>
    split at taken
    · split at taken <;> cases taken
      · exact ⟨idle.drain,idle.queue⟩
      · exact ⟨idle.drain,by simpa using idle.queue⟩
    · cases taken
  case lock =>
    split at taken
    · rename_i head
      split at taken <;> cases taken
      refine ⟨idle.drain,fun member => idle.queue ?_⟩
      rw [head]
      exact List.mem_cons_of_mem _ member
    · rename_i head
      exact absurd (by simp [head]) idle.queue
    · cases taken
  case spawn i =>
    split at taken <;> cases taken
    exact ⟨idle.drain,idle.queue⟩
  case unlock i =>
    split at taken <;> cases taken
    exact ⟨idle.drain,idle.queue⟩
  case cancel i =>
    split at taken <;> cases taken <;> exact dropped i
  case finish t how =>
    split at taken
    · split at taken <;> cases taken
      cases s.callOf t with
      | none => exact ⟨by simpa [State.setTask] using idle.drain,by simpa [State.setTask] using idle.queue⟩
      | some j =>
        have idle := dropped j
        exact ⟨by simpa [State.setTask] using idle.drain,by simpa [State.setTask] using idle.queue⟩
    · cases taken
  case drain => exact absurd rfl quiet
  case join t =>
    split at taken
    · simp [idle.drain] at taken
    · cases taken
  case expire => simp [idle.drain] at taken
  case close => simp [idle.drain] at taken

/-- What a transition before shutdown does to the tasks. -/
inductive Progress (tasks : List Task) : Action → List Task → Prop
  | finish {t : Nat} (found : tasks[t]? = some ⟨origin,.running⟩) :
      Progress tasks (.finish t how) (tasks.set t ⟨origin,.finished⟩)
  | spawn (other : ∀ t how, a ≠ .finish t how) : Progress tasks a (tasks ++ [⟨origin,.running⟩])
  | same (other : ∀ t how, a ≠ .finish t how) : Progress tasks a tasks

theorem Idle.progress (idle : Idle s) (taken : Detach.step s a = some u) :
    Progress s.tasks a u.tasks := by
  cases a <;> simp only [Detach.step] at taken
  case trySpawn owner =>
    split at taken
    · split at taken <;> cases taken <;> exact .same (by simp)
    · cases taken
  case lock =>
    split at taken
    · split at taken <;> cases taken
      exact .same (by simp)
    · cases taken
      exact .same (by simp)
    · cases taken
  case spawn i =>
    split at taken <;> cases taken
    exact .spawn (by simp)
  case unlock i =>
    split at taken <;> cases taken
    exact .same (by simp)
  case cancel i =>
    split at taken <;> cases taken <;> rw [tasks_abandon] <;> exact .same (by simp)
  case finish t how =>
    split at taken
    · rename_i origin found
      split at taken <;> cases taken
      have shape : (((s.callOf t).elim s s.abandon).release origin).tasks = s.tasks := by
        cases s.callOf t <;> simp [tasks_abandon]
      simp only [State.setTask,shape]
      exact .finish found
    · cases taken
  case drain =>
    split at taken <;> cases taken
    exact .same (by simp)
  case join t =>
    split at taken
    · simp [idle.drain] at taken
    · cases taken
  case expire => simp [idle.drain] at taken
  case close => simp [idle.drain] at taken

/-- Before shutdown a task is running or finished, and there is a finished one exactly if
some task has ended. -/
structure Records (history : List Action) (tasks : List Task) : Prop where
  phases : ∀ task ∈ tasks, task.phase = .running ∨ task.phase = .finished
  ended : (∃ task ∈ tasks, task.phase = .finished) ↔ ∃ t how, Action.finish t how ∈ history

theorem Records.progress (before : Records history tasks) (progress : Progress tasks a after) :
    Records (history ++ [a]) after := by
  cases progress with
  | finish found =>
    rename_i origin how t
    obtain ⟨below,-⟩ := List.getElem?_eq_some_iff.mp found
    refine ⟨?_,?_⟩
    · intro task member
      rcases List.mem_or_eq_of_mem_set member with old | rfl
      · exact before.phases task old
      · exact .inr rfl
    · exact iff_of_true ⟨_,List.mem_set below _,rfl⟩ ⟨t,how,by simp⟩
  | spawn other =>
    refine ⟨?_,?_⟩
    · intro task member
      rcases List.mem_append.mp member with old | last
      · exact before.phases task old
      · obtain rfl := List.mem_singleton.mp last
        exact .inl rfl
    · have fresh : ∀ t how, Action.finish t how ≠ a := fun t how eq => other t how eq.symm
      simp only [List.mem_append,List.mem_singleton,or_and_right,exists_or,fresh,or_false,
        ← before.ended,exists_eq_left,reduceCtorEq]
  | same other =>
    have fresh : ∀ t how, Action.finish t how ≠ a := fun t how eq => other t how eq.symm
    refine ⟨before.phases,?_⟩
    simp only [List.mem_append,List.mem_singleton,fresh,or_false]
    exact before.ended

theorem records_of_exec (undrained : Action.drain ∉ actions)
    (reached : exec step (new cap) actions = some s) : Idle s ∧ Records actions s.tasks := by
  have kept := exec_history (I := fun history s => Action.drain ∉ history → Idle s ∧ Records history s.tasks)
    (fun _ => ⟨⟨rfl,by simp [new]⟩,⟨by simp [new],by simp [new]⟩⟩) ?_ reached
  · exact kept undrained
  · intro history t a u before taken quiet
    simp only [List.mem_append,List.mem_singleton,not_or] at quiet
    obtain ⟨idle,records⟩ := before quiet.1
    exact ⟨idle.step taken (Ne.symm quiet.2),records.progress (idle.progress taken)⟩

theorem permits_of_exec (reached : exec step (new (some n)) actions = some s) : Permits n s := by
  apply exec_history (I := fun _ s => Permits n s) (new_permits n) _ reached
  intro history t a u before taken
  exact step_keeps (C := fun _ _ => True) (fun _ _ inv move => inv.move move) (by simp) taken before

/-- Before shutdown the `JoinSet` holds the unfinished tasks, at most `n` of them, exactly
until the first task finishes. -/
theorem records_bounded_iff (n : Nat) (actions : List Action) (undrained : Action.drain ∉ actions)
    (reached : exec step (new (some n)) actions = some s) :
    s.inflight ≤ n ∧ s.inflight = s.unfinished ↔ ∀ t how, Action.finish t how ∉ actions := by
  obtain ⟨-,records⟩ := records_of_exec undrained reached
  have all : s.inflight = s.tasks.length := by
    rw [State.inflight,List.countP_eq_length]
    intro task member
    rcases records.phases task member with phase | phase <;> simp [phase]
  have bound := (permits_of_exec reached).unfinished_le
  constructor
  · rintro ⟨-,same⟩ t how ended
    obtain ⟨task,member,finished⟩ := records.ended.mpr ⟨t,how,ended⟩
    rw [all] at same
    have running := List.countP_eq_length.mp same.symm task member
    simp [finished] at running
  · intro none
    have same : s.unfinished = s.tasks.length := by
      rw [State.unfinished,List.countP_eq_length]
      intro task member
      rcases records.phases task member with phase | phase
      · simp [phase]
      · obtain ⟨t,how,ended⟩ := records.ended.mp ⟨task,member,phase⟩
        exact absurd ended (none t how)
    rw [all,← same]
    exact ⟨bound,rfl⟩

/-- One task after another: the second is the only one left, and two records are held. -/
theorem finished_record_kept :
    ∃ s, exec step (new (some 1)) [.trySpawn none,.lock,.spawn 0,.unlock 0,.finish 0 .completed,
        .trySpawn none,.lock,.spawn 1,.unlock 1] = some s ∧ s.inflight = 2 ∧ s.unfinished = 1 :=
  ⟨_,rfl,by decide,by decide⟩

theorem running_record_bounded :
    ∃ s, exec step (new (some 1)) [.trySpawn none,.lock,.spawn 0,.unlock 0,.trySpawn (some 0)] = some s ∧
      s.inflight ≤ 1 ∧ s.inflight = s.unfinished :=
  ⟨_,rfl,(records_bounded_iff 1 [.trySpawn none,.lock,.spawn 0,.unlock 0,.trySpawn (some 0)]
    (by simp) rfl).mpr (by simp)⟩

/-- Everybody behind the drain in the queue satisfies `ok`. -/
def Behind (ok : Nat → Prop) : List Party → Prop
  | [] => True
  | .call _ :: rest => Behind ok rest
  | .drain :: rest => ∀ i, .call i ∈ rest → ok i

namespace Behind

variable {ok ok' : Nat → Prop} {queue : List Party}

theorem mono (behind : Behind ok queue) (weaker : ∀ i, .call i ∈ queue → ok i → ok' i) :
    Behind ok' queue := by
  induction queue with
  | nil => trivial
  | cons party rest ih =>
    cases party with
    | call i => exact ih behind fun j member => weaker j (List.mem_cons_of_mem _ member)
    | drain => exact fun i member => weaker i (List.mem_cons_of_mem _ member) (behind i member)

theorem of_absent (absent : Party.drain ∉ queue) : Behind ok queue := by
  induction queue with
  | nil => trivial
  | cons party rest ih =>
    cases party with
    | call i => exact ih fun member => absent (List.mem_cons_of_mem _ member)
    | drain => exact absurd List.mem_cons_self absent

theorem snoc_call (behind : Behind ok queue) (good : ok i ∨ Party.drain ∉ queue) :
    Behind ok (queue ++ [.call i]) := by
  induction queue with
  | nil => trivial
  | cons party rest ih =>
    cases party with
    | call j => exact ih behind (good.imp_right fun absent member => absent (List.mem_cons_of_mem _ member))
    | drain =>
      intro j member
      rcases List.mem_append.mp member with old | last
      · exact behind j old
      · cases List.mem_singleton.mp last
        exact good.resolve_right fun absent => absent List.mem_cons_self

theorem snoc_drain (absent : Party.drain ∉ queue) : Behind ok (queue ++ [.drain]) := by
  induction queue with
  | nil => exact fun i member => absurd member List.not_mem_nil
  | cons party rest ih =>
    cases party with
    | call j => exact ih fun member => absent (List.mem_cons_of_mem _ member)
    | drain => exact absurd List.mem_cons_self absent

theorem erase_call (behind : Behind ok queue) (i : Nat) : Behind ok (queue.erase (.call i)) := by
  induction queue with
  | nil => trivial
  | cons party rest ih =>
    cases party with
    | call j =>
      by_cases same : i = j
      · subst same
        rw [List.erase_cons_head]
        exact behind
      · have ne : (Party.call j == Party.call i) = false := by simpa using Ne.symm same
        rw [List.erase_cons_tail (by simp [ne])]
        exact ih behind
    | drain =>
      rw [List.erase_cons_tail (by simp)]
      exact fun j member => behind j (List.mem_of_mem_erase member)

end Behind

namespace State

/-- The call is not one of a detached task. -/
def fromRequest (s : State) (i : Nat) : Prop := s.calls[i]?.all (·.owner.isNone) = true

/-- The drain holds the lock. -/
def draining (s : State) : Prop := s.drain = .joining ∨ s.drain = .aborting

end State

/-- The drain holds the lock, some task has not finished, and every task that has not
finished waits for the lock. -/
def Blocked (s : State) : Prop :=
  s.lock = some .drain ∧ (∃ (t : Nat) (i : Nat), s.tasks[t]? = some ⟨i,.running⟩) ∧
    ∀ (t i : Nat), s.tasks[t]? = some ⟨i,.running⟩ → ∃ j : Nat, s.calls[j]? = some ⟨some t,.waiting⟩

/-- From the call of `drain` until it has returned, no detached task takes a permit. -/
def Calm (s : State) : Action → Prop
  | .trySpawn (some _) => s.available ≠ some 0 → s.drain = .idle ∨ s.drain = .done
  | _ => True

instance : (a : Action) → Decidable (Calm s a)
  | .trySpawn (some _) => inferInstanceAs (Decidable (_ → _ ∨ _))
  | .trySpawn none | .lock | .spawn _ | .unlock _ | .cancel _ | .finish .. | .drain | .join _ |
    .expire | .close => .isTrue trivial

/-- What the queue of the lock says about its holder and about those who wait. -/
structure Ordered (s : State) : Prop where
  queued : ∀ (i : Nat) (owner : Option Nat), s.calls[i]? = some ⟨owner,.waiting⟩ → .call i ∈ s.queue
  below : ∀ i, .call i ∈ s.queue → i < s.calls.length
  holder : ∀ (i : Nat) (c : SpawnCall), s.calls[i]? = some c → c.phase = .locked ∨ c.phase = .spawned →
    s.lock = some (.call i)
  waiting : s.queue.count .drain = if s.drain = .waiting then 1 else 0
  lock : s.lock = some .drain ↔ s.draining
  behind : Behind s.fromRequest s.queue
  served : s.draining → ∀ i, .call i ∈ s.queue → s.fromRequest i

theorem new_ordered (cap : Option Nat) : Ordered (new cap) where
  queued := by simp [new]
  below := by simp [new]
  holder := by simp [new]
  waiting := by simp [new]
  lock := by simp [new,State.draining]
  behind := trivial
  served := by simp [new]

theorem Ordered.not_blocked (inv : Ordered s) : ¬Blocked s := by
  rintro ⟨lock,⟨t,i,found⟩,all⟩
  obtain ⟨j,waiting⟩ := all t i found
  have request := inv.served (inv.lock.mp lock) j (inv.queued j _ waiting)
  simp [State.fromRequest,waiting] at request

theorem fromRequest_set (found : s.calls[i]? = some ⟨owner,phase⟩)
    (calls : u.calls = s.calls.set i ⟨owner,phase'⟩) (j : Nat) : u.fromRequest j ↔ s.fromRequest j := by
  simp only [State.fromRequest,calls]
  by_cases same : i = j
  · subst same
    obtain ⟨below,row⟩ := List.getElem?_eq_some_iff.mp found
    simp [below,row]
  · simp [same]

theorem fromRequest_snoc (calls : u.calls = s.calls ++ [call]) (below : i < s.calls.length) :
    u.fromRequest i ↔ s.fromRequest i := by
  simp [State.fromRequest,calls,List.getElem?_append_left below]

/-- A new call joins the queue, or is turned away and does not. -/
theorem Ordered.arrive (inv : Ordered s) (calls : u.calls = s.calls ++ [⟨owner,phase⟩])
    (queue : u.queue = s.queue ∧ phase = .refused ∨
      u.queue = s.queue ++ [.call s.calls.length] ∧ phase = .waiting ∧
        (owner = none ∨ s.drain = .idle ∨ s.drain = .done))
    (lock : u.lock = s.lock) (drain : u.drain = s.drain) : Ordered u := by
  have subset : ∀ party, party ∈ s.queue → party ∈ u.queue := by
    intro party member
    rcases queue with ⟨same,-⟩ | ⟨longer,-⟩
    · rwa [same]
    · rw [longer]
      exact List.mem_append_left _ member
  have length : u.calls.length = s.calls.length + 1 := by simp [calls]
  have old : ∀ i, .call i ∈ s.queue → (u.fromRequest i ↔ s.fromRequest i) := fun i member =>
    fromRequest_snoc calls (inv.below i member)
  have mine : owner = none → u.fromRequest s.calls.length := by
    intro request
    simp [State.fromRequest,calls,request]
  have draining : u.draining ↔ s.draining := by simp [State.draining,drain]
  have back : ∀ i, .call i ∈ u.queue → .call i ∈ s.queue ∨ i = s.calls.length ∧ phase = .waiting ∧
      (owner = none ∨ s.drain = .idle ∨ s.drain = .done) := by
    intro i member
    rcases queue with ⟨same,-⟩ | ⟨longer,phase,calm⟩
    · rw [same] at member
      exact .inl member
    · rw [longer] at member
      rcases List.mem_append.mp member with before | last
      · exact .inl before
      · cases List.mem_singleton.mp last
        exact .inr ⟨rfl,phase,calm⟩
  refine ⟨?_,?_,?_,?_,?_,?_,?_⟩
  · intro i owner' waiting
    rw [calls] at waiting
    rcases getElem?_snoc_cases waiting with before | ⟨rfl,same⟩
    · exact subset _ (inv.queued i owner' before)
    · cases same
      rcases queue with ⟨-,refused⟩ | ⟨longer,-⟩
      · cases refused
      · simp [longer]
  · intro i member
    rcases back i member with before | ⟨rfl,-⟩
    · have := inv.below i before
      omega
    · omega
  · intro i c found holds
    rw [calls] at found
    rw [lock]
    rcases getElem?_snoc_cases found with before | ⟨rfl,same⟩
    · exact inv.holder i c before holds
    · subst same
      rcases queue with ⟨-,rfl⟩ | ⟨-,rfl,-⟩ <;> simp at holds
  · rw [drain,← inv.waiting]
    rcases queue with ⟨same,-⟩ | ⟨longer,-⟩
    · rw [same]
    · simp [longer]
  · rw [lock,draining]
    exact inv.lock
  · have behind : Behind u.fromRequest s.queue := inv.behind.mono fun i member => (old i member).mpr
    rcases queue with ⟨same,-⟩ | ⟨longer,-,calm⟩
    · rwa [same]
    · rw [longer]
      apply behind.snoc_call
      rcases calm with request | ended
      · exact .inl (mine request)
      · right
        have none : s.queue.count .drain = 0 := by
          rw [inv.waiting]
          rcases ended with phase | phase <;> simp [phase]
        exact List.count_eq_zero.mp none
  · intro active i member
    rw [draining] at active
    rcases back i member with before | ⟨rfl,-,request | ended⟩
    · exact (old i before).mpr (inv.served active i before)
    · exact mine request
    · rcases active with phase | phase <;> rcases ended with phase' | phase' <;> simp [phase] at phase'

/-- A call stops waiting, or goes on from there. -/
theorem Ordered.change (inv : Ordered s) (found : s.calls[i]? = some ⟨owner,phase⟩)
    (phase' : CallPhase) (calls : u.calls = s.calls.set i ⟨owner,phase'⟩) (left : phase' ≠ .waiting)
    (shorter : ∀ party, party ∈ u.queue → party ∈ s.queue)
    (kept : ∀ j, j ≠ i → .call j ∈ s.queue → .call j ∈ u.queue)
    (count : u.queue.count .drain = s.queue.count .drain) (behind : Behind s.fromRequest u.queue)
    (own : phase' = .locked ∨ phase' = .spawned → u.lock = some (.call i))
    (others : ∀ j, j ≠ i → s.lock = some (.call j) → u.lock = some (.call j))
    (lock : u.lock = some .drain ↔ s.lock = some .drain) (drain : u.drain = s.drain) : Ordered u := by
  have request := fromRequest_set found calls
  have draining : u.draining ↔ s.draining := by simp [State.draining,drain]
  refine ⟨?_,?_,?_,?_,?_,?_,?_⟩
  · intro j owner' waiting
    rw [calls] at waiting
    rcases getElem?_set_cases waiting with ⟨rfl,same⟩ | ⟨ne,old⟩
    · cases same
      exact absurd rfl left
    · exact kept j (Ne.symm ne) (inv.queued j owner' old)
  · intro j member
    rw [calls,List.length_set]
    exact inv.below j (shorter _ member)
  · intro j c atJ holds
    rw [calls] at atJ
    rcases getElem?_set_cases atJ with ⟨rfl,rfl⟩ | ⟨ne,old⟩
    · exact own holds
    · exact others j (Ne.symm ne) (inv.holder j c old holds)
  · rw [count,drain]
    exact inv.waiting
  · rw [lock,draining]
    exact inv.lock
  · exact behind.mono fun j _ => (request j).mpr
  · intro active j member
    exact (request j).mpr (inv.served (draining.mp active) j (shorter _ member))

/-- Only the tasks change. -/
theorem Ordered.same (inv : Ordered s) (calls : u.calls = s.calls) (queue : u.queue = s.queue)
    (lock : u.lock = s.lock) (drain : u.drain = s.drain) : Ordered u := by
  have request : u.fromRequest = s.fromRequest := by
    funext i
    simp [State.fromRequest,calls]
  have draining : u.draining = s.draining := by simp [State.draining,drain]
  refine ⟨?_,?_,?_,?_,?_,?_,?_⟩
  · rw [calls,queue]
    exact inv.queued
  · rw [calls,queue]
    exact inv.below
  · rw [calls,lock]
    exact inv.holder
  · rw [queue,drain]
    exact inv.waiting
  · rw [lock,draining]
    exact inv.lock
  · rw [request,queue]
    exact inv.behind
  · rw [draining,queue,request]
    exact inv.served

@[simp] theorem lock_release : (s.release i).lock = s.lock := by
  simp only [State.release]
  split <;> rfl

@[simp] theorem calls_release : (s.release i).calls = s.calls := by
  simp only [State.release]
  split <;> rfl

theorem Ordered.grant (inv : Ordered s) (free : s.lock = none) (head : s.queue = .call i :: rest)
    (found : s.calls[i]? = some ⟨owner,.waiting⟩) :
    Ordered ({ s with lock := some (.call i), queue := rest }.setCall i ⟨owner,.locked⟩) := by
  apply inv.change found .locked
  case calls => rfl
  case left => simp
  case shorter =>
    intro party member
    rw [head]
    exact List.mem_cons_of_mem _ member
  case kept =>
    intro j ne member
    rw [head] at member
    simpa [ne,State.setCall] using member
  case count => simp [head,State.setCall]
  case behind =>
    have behind := inv.behind
    rwa [head] at behind
  case own => exact fun _ => rfl
  case others =>
    intro j ne held
    simp [free] at held
  case lock => simp [free,State.setCall]
  case drain => rfl

/-- A call gives the lock back. -/
theorem Ordered.free (inv : Ordered s) (found : s.calls[i]? = some ⟨owner,phase⟩)
    (holds : phase = .locked ∨ phase = .spawned) (phase' : CallPhase)
    (calls : u.calls = s.calls.set i ⟨owner,phase'⟩) (left : phase' = .returned ∨ phase' = .dropped)
    (queue : u.queue = s.queue) (lock : u.lock = none) (drain : u.drain = s.drain) : Ordered u := by
  have held := inv.holder i _ found holds
  apply inv.change found phase' calls
  case left => rcases left with rfl | rfl <;> simp
  case shorter => simp [queue]
  case kept => simp [queue]
  case count => rw [queue]
  case behind =>
    rw [queue]
    exact inv.behind
  case own => rcases left with rfl | rfl <;> simp
  case others =>
    intro j ne other
    simp [held,Ne.symm ne] at other
  case lock => simp [lock,held]
  case drain => exact drain

theorem Ordered.leave (inv : Ordered s) (found : s.calls[i]? = some ⟨owner,.waiting⟩)
    (calls : u.calls = s.calls.set i ⟨owner,.dropped⟩) (queue : u.queue = s.queue.erase (.call i))
    (lock : u.lock = s.lock) (drain : u.drain = s.drain) : Ordered u := by
  apply inv.change found .dropped calls
  case left => simp
  case shorter =>
    intro party member
    rw [queue] at member
    exact List.mem_of_mem_erase member
  case kept =>
    intro j ne member
    have ne' : Party.call j ≠ Party.call i := by simpa using ne
    rw [queue]
    exact (List.mem_erase_of_ne ne').mpr member
  case count => simp [queue]
  case behind =>
    rw [queue]
    exact inv.behind.erase_call i
  case own => simp
  case others => simp [lock]
  case lock => rw [lock]
  case drain => exact drain

/-- `drain` queues up for the lock. -/
theorem Ordered.enqueue (inv : Ordered s) (idle : s.drain = .idle) :
    Ordered { s with drain := .waiting, queue := s.queue ++ [.drain] } := by
  have none : s.queue.count .drain = 0 := by simp [inv.waiting,idle]
  have unlocked : s.lock ≠ some .drain := by
    intro held
    have active := inv.lock.mp held
    simp [State.draining,idle] at active
  refine ⟨?_,?_,inv.holder,?_,?_,?_,?_⟩
  · intro i owner found
    exact List.mem_append_left _ (inv.queued i owner found)
  · intro i member
    exact inv.below i (by simpa using member)
  · simp [none]
  · simp [State.draining,unlocked]
  · exact Behind.snoc_drain (List.count_eq_zero.mp none)
  · simp [State.draining]

/-- `drain` is granted the lock: only requests are left in the queue. -/
theorem Ordered.take (inv : Ordered s) (free : s.lock = none) (head : s.queue = .drain :: rest) :
    Ordered { s with lock := some .drain, queue := rest, drain := .joining } := by
  have behind := inv.behind
  have count := inv.waiting
  rw [head] at behind
  rw [head,List.count_cons_self] at count
  have none : rest.count .drain = 0 := by
    split at count <;> omega
  refine ⟨?_,?_,?_,?_,?_,?_,?_⟩
  · intro i owner found
    have member := inv.queued i owner found
    rw [head] at member
    simpa using member
  · intro i member
    apply inv.below i
    rw [head]
    exact List.mem_cons_of_mem _ member
  · intro i c found holds
    have held := inv.holder i c found holds
    simp [free] at held
  · simp [none]
  · simp [State.draining]
  · exact Behind.of_absent (List.count_eq_zero.mp none)
  · exact fun _ => behind

theorem Ordered.move (inv : Ordered s)
    (move : Move (fun s owner => owner = none ∨ s.drain = .idle ∨ s.drain = .done) s u) : Ordered u := by
  cases move with
  | refuse full => exact inv.arrive rfl (.inl ⟨rfl,rfl⟩) rfl rfl
  | acquire room calm => exact inv.arrive rfl (.inr ⟨rfl,rfl,calm⟩) rfl rfl
  | grant free head found => exact inv.grant free head found
  | take free head => exact inv.take free head
  | spawn found =>
    have held := inv.holder _ _ found (.inl rfl)
    exact inv.change found .spawned rfl (by simp) (fun _ => id) (fun _ _ => id) rfl inv.behind
      (fun _ => held) (fun _ _ => id) Iff.rfl rfl
  | unlock found => exact inv.free found (.inr rfl) .returned rfl (.inl rfl) rfl rfl rfl
  | leave found =>
    exact inv.leave found (by simp [State.setCall]) (by simp [State.setCall]) (by simp [State.setCall])
      (by simp [State.setCall])
  | giveBack found =>
    exact inv.free found (.inl rfl) .dropped (by simp [State.setCall]) (.inr rfl)
      (by simp [State.setCall]) (by simp [State.setCall]) (by simp [State.setCall])
  | finish found =>
    exact inv.same (by simp [State.setTask]) (by simp [State.setTask]) (by simp [State.setTask])
      (by simp [State.setTask])
  | drain idle => exact inv.enqueue idle
  | join found draining => exact inv.same rfl rfl rfl rfl
  | expire draining =>
    have held := inv.lock.mpr (.inl draining)
    have served := inv.served (.inl draining)
    refine ⟨inv.queued,inv.below,inv.holder,?_,?_,inv.behind,fun _ => served⟩
    · simpa [draining] using inv.waiting
    · simp [State.draining,held]
  | close draining empty =>
    have held := inv.lock.mpr draining
    have none : s.queue.count .drain = 0 := by
      rw [inv.waiting]
      rcases draining with phase | phase <;> simp [phase]
    refine ⟨inv.queued,inv.below,?_,?_,?_,inv.behind,?_⟩
    · intro i c found holds
      have other := inv.holder i c found holds
      simp [held] at other
    · simpa using none
    · simp [State.draining]
    · simp [State.draining]

/-- In every run in which detached tasks start no nested detach while a drain is under way,
the drain never waits for tasks that all wait for its lock. -/
theorem drain_not_blocked (cap : Option Nat) (actions : List Action)
    (calm : Along step (fun s a _ => Calm s a) (new cap) actions)
    (reached : exec step (new cap) actions = some s) : ¬Blocked s := by
  apply Ordered.not_blocked
  apply calm.invariant (new_ordered cap) _ reached
  intro s a u inv taken calm
  apply step_keeps (fun _ _ inv move => Ordered.move inv move) _ taken inv
  rintro owner rfl room
  cases owner with
  | none => exact .inl rfl
  | some t => exact .inr (calm room)

/-- The drain takes the lock, then the only task starts a nested detach. -/
theorem nested_detach_blocks :
    ∃ s, exec step (new (some 2)) [.trySpawn none,.lock,.spawn 0,.unlock 0,.drain,.lock,
        .trySpawn (some 0)] = some s ∧ Blocked s := by
  refine ⟨_,rfl,rfl,⟨0,0,rfl⟩,?_⟩
  intro t i found
  match t, found with
  | 0, _ => exact ⟨1,rfl⟩

theorem nested_before_drain_not_blocked :
    ∃ s, exec step (new (some 2)) [.trySpawn none,.lock,.spawn 0,.unlock 0,.trySpawn (some 0),.drain,
        .lock,.spawn 1,.unlock 1,.lock] = some s ∧ ¬Blocked s :=
  ⟨_,rfl,drain_not_blocked (some 2) [.trySpawn none,.lock,.spawn 0,.unlock 0,.trySpawn (some 0),.drain,
    .lock,.spawn 1,.unlock 1,.lock] (by decide) rfl⟩

end Ruuter.Detach
