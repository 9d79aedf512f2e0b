import Mathlib.Data.List.AList
import Mathlib.Data.List.Dedup
import Mathlib.Data.List.NodupEquivFin
import Ruuter.Lib.Table
import Ruuter.Lib.Transition
import Ruuter.Reconnect

/-! The health of supervised sources (`src/supervisor/mod.rs`): watchdogs that run side by side write
their statuses into one map, keyed by project, name and kind, and `/_/sources` reports the map. -/
namespace Ruuter.Supervisor
open Transition Table

structure SourceId where
  project : String
  name : String
  kind : String
deriving DecidableEq

structure SourceState where
  id : SourceId
  status : SourceStatus
  lastStatusChangeUnixMs : UInt64
  restartCount : UInt32

abbrev SourceStateMap := AList fun _ : SourceId => SourceState

namespace SourceStatus

def isRunning : SourceStatus → Bool
  | .running => true
  | _ => false

def isRestarting : SourceStatus → Bool
  | .restarting .. => true
  | _ => false

def isDead : SourceStatus → Bool
  | .dead _ => true
  | _ => false

end SourceStatus

structure SupervisorReport where
  sources : List SourceState
  total : Nat
  running : Nat
  restarting : Nat
  dead : Nat

def report (state : SourceStateMap) : SupervisorReport :=
  let sources := state.entries.map (·.2)
  { sources
    total := sources.length
    running := sources.countP (·.status.isRunning)
    restarting := sources.countP (·.status.isRestarting)
    dead := sources.countP (·.status.isDead) }

def setStatus (state : SourceStateMap) (id : SourceId) (status : SourceStatus) (restartCount : UInt32)
    (nowMs : UInt64) : SourceStateMap :=
  let entry := (state.lookup id).getD { id, status := .starting, lastStatusChangeUnixMs := nowMs, restartCount := 0 }
  state.insert id { entry with status, lastStatusChangeUnixMs := nowMs, restartCount }

/-- What a step of a watchdog says about its source. -/
def Watch.said : Watch → Option (SourceStatus × UInt32)
  | .status now restartCount => some (now,restartCount)
  | .sleep _ => none

/-- A watchdog between two steps of its loop. The trace depends on how its tasks end. -/
structure Watchdog where
  id : SourceId
  trace : List Watch
  taken : Nat
  since : UInt64

namespace Watchdog

def past (dog : Watchdog) : List Watch := dog.trace.take dog.taken

/-- What it has said last. -/
def shown (dog : Watchdog) : SourceState :=
  let last := ((dog.past.filterMap Watch.said).getLast?).getD (.starting,0)
  { id := dog.id, status := last.1, lastStatusChangeUnixMs := dog.since, restartCount := last.2 }

/-- The restarts it has announced. -/
def restarts (dog : Watchdog) : Nat :=
  (dog.past.filterMap Watch.said).countP (·.1.isRestarting)

end Watchdog

structure Machine where
  state : SourceStateMap := ∅
  watchdogs : List Watchdog := []

inductive Action
  | supervise (id : SourceId) (results : List (Except JoinError Unit)) (nowMs : UInt64)
  | poll (w : Nat) (nowMs : UInt64)

/-- `supervise` starts a watchdog behind the entry it inserts; any watchdog takes the next step of its
loop. -/
def step (sup : SourceSupervisor) (checks : Bool) (m : Machine) : Action → Option Machine
  | .supervise id results nowMs =>
    let starting := { id, status := .starting, lastStatusChangeUnixMs := nowMs, restartCount := 0 }
    some
      { state := m.state.insert id starting
        watchdogs := m.watchdogs ++ [{ id, trace := sup.supervise checks results, taken := 1, since := nowMs }] }
  | .poll w nowMs =>
    match m.watchdogs[w]? with
    | none => none
    | some dog =>
      match dog.trace[dog.taken]? with
      | none => none
      | some (.status status restartCount) =>
        some
          { state := setStatus m.state dog.id status restartCount nowMs
            watchdogs := m.watchdogs.set w { dog with taken := dog.taken + 1, since := nowMs } }
      | some (.sleep _) =>
        some { m with watchdogs := m.watchdogs.set w { dog with taken := dog.taken + 1 } }

variable {sup : SourceSupervisor} {checks : Bool} {m n : Machine} {dog : Watchdog} {action : Action}

/-- Everything a step can do. -/
inductive Step (sup : SourceSupervisor) (checks : Bool) (m : Machine) : Machine → Prop
  | supervise (id : SourceId) (results : List (Except JoinError Unit)) (nowMs : UInt64) :
    Step sup checks m
      { state := m.state.insert id { id, status := .starting, lastStatusChangeUnixMs := nowMs, restartCount := 0 }
        watchdogs := m.watchdogs ++ [{ id, trace := sup.supervise checks results, taken := 1, since := nowMs }] }
  | status (w : Nat) (dog : Watchdog) (status : SourceStatus) (restartCount : UInt32) (nowMs : UInt64)
      (found : m.watchdogs[w]? = some dog) (next : dog.trace[dog.taken]? = some (.status status restartCount)) :
    Step sup checks m
      { state := setStatus m.state dog.id status restartCount nowMs
        watchdogs := m.watchdogs.set w { dog with taken := dog.taken + 1, since := nowMs } }
  | sleep (w : Nat) (dog : Watchdog) (ms : UInt64) (found : m.watchdogs[w]? = some dog)
      (next : dog.trace[dog.taken]? = some (.sleep ms)) :
    Step sup checks m { m with watchdogs := m.watchdogs.set w { dog with taken := dog.taken + 1 } }

theorem step_cases (taken : step sup checks m action = some n) : Step sup checks m n := by
  cases action with
  | supervise id results nowMs =>
    cases taken
    exact .supervise id results nowMs
  | poll w nowMs =>
    simp only [step] at taken
    split at taken
    · cases taken
    · rename_i dog found
      split at taken
      · cases taken
      · rename_i status restartCount next
        cases taken
        exact .status w dog status restartCount nowMs found next
      · rename_i ms next
        cases taken
        exact .sleep w dog ms found next

theorem past_succ {w : Watch} (next : dog.trace[dog.taken]? = some w) (since : UInt64) :
    ({ dog with taken := dog.taken + 1, since } : Watchdog).past = dog.past ++ [w] := by
  obtain ⟨inside,rfl⟩ := List.getElem?_eq_some_iff.mp next
  exact List.take_succ_eq_append_getElem inside

/-- After saying something a watchdog shows it. -/
theorem shown_status (next : dog.trace[dog.taken]? = some (.status status restartCount)) (nowMs : UInt64) :
    ({ dog with taken := dog.taken + 1, since := nowMs } : Watchdog).shown =
      { id := dog.id, status, lastStatusChangeUnixMs := nowMs, restartCount } := by
  simp only [Watchdog.shown,past_succ next,List.filterMap_append]
  simp [Watch.said]

theorem shown_sleep (next : dog.trace[dog.taken]? = some (.sleep ms)) :
    ({ dog with taken := dog.taken + 1 } : Watchdog).shown = dog.shown := by
  simp only [Watchdog.shown,past_succ next,List.filterMap_append]
  simp [Watch.said]

def Machine.ids (m : Machine) : List SourceId := m.watchdogs.map (·.id)

/-- The keys of the map are the sources supervised so far, and an entry is about its key. -/
def Known (m : Machine) : Prop := ∀ id, id ∈ m.state ↔ id ∈ m.ids

/-- Where a source has one watchdog, its entry is what this one has said last. -/
def Mirrored (m : Machine) : Prop :=
  ∀ dog ∈ m.watchdogs, m.ids.count dog.id = 1 → m.state.lookup dog.id = some dog.shown

/-- Where a watchdog stands in the loop of `supervise`. -/
def Looping (sup : SourceSupervisor) (checks : Bool) (dog : Watchdog) : Prop :=
  0 < dog.taken ∧ ∃ results, dog.trace = sup.supervise checks results

/-- A watchdog that takes a step keeps its place. -/
theorem ids_moved {w : Nat} (found : m.watchdogs[w]? = some dog) (state : SourceStateMap) (taken : Nat)
    (since : UInt64) :
    Machine.ids { state, watchdogs := m.watchdogs.set w { dog with taken, since } } = m.ids := by
  obtain ⟨inside,at_w⟩ := List.getElem?_eq_some_iff.mp found
  have bound : w < m.ids.length := by simpa [Machine.ids] using inside
  have here : m.ids[w] = dog.id := by simp [Machine.ids,at_w]
  change (m.watchdogs.set w { dog with taken, since }).map (·.id) = m.ids
  rw [List.map_set]
  change m.ids.set w dog.id = m.ids
  rw [← here,List.set_getElem_self]

theorem mem_setStatus {id other : SourceId} {status : SourceStatus} :
    other ∈ setStatus m.state id status restartCount nowMs ↔ other = id ∨ other ∈ m.state := by
  simp [setStatus,AList.mem_insert]

theorem lookup_setStatus {id : SourceId} {status : SourceStatus} {entry : SourceState}
    (known : m.state.lookup id = some entry) (about : entry.id = id) :
    (setStatus m.state id status restartCount nowMs).lookup id =
      some { id, status, lastStatusChangeUnixMs := nowMs, restartCount } := by
  rw [setStatus,known]
  simp [about]

theorem Known.step (known : Known m) (taken : Step sup checks m n) : Known n := by
  intro id
  cases taken with
  | supervise new results nowMs =>
    simp only [AList.mem_insert,known id,Machine.ids,List.map_append,List.mem_append,List.map_cons,
      List.map_nil,List.mem_singleton]
    exact or_comm
  | status w dog status restartCount nowMs found next =>
    have present : dog.id ∈ m.ids := List.mem_map_of_mem (List.mem_of_getElem? found)
    rw [mem_setStatus,known id,ids_moved found]
    constructor
    · rintro (rfl | present)
      · exact present
      · exact present
    · exact .inr
  | sleep w dog ms found next =>
    rw [known id,ids_moved found]

/-- Who is supervised once is at one place. -/
theorem place_unique {ids : List SourceId} {id : SourceId} {v w : Nat} (once : ids.count id = 1) (first : ids[v]? = some id)
    (second : ids[w]? = some id) : v = w := by
  have single : ¬ ids.Duplicate id := by
    rw [List.duplicate_iff_two_le_count]
    omega
  have apart : ∀ v w : Nat, ids[v]? = some id → ids[w]? = some id → ¬ v < w := by
    intro v w first second less
    obtain ⟨inside,here⟩ := List.getElem?_eq_some_iff.mp first
    obtain ⟨below,there⟩ := List.getElem?_eq_some_iff.mp second
    exact single (List.duplicate_iff_exists_distinct_get.mpr
      ⟨⟨v,inside⟩,⟨w,below⟩,less,here.symm,there.symm⟩)
  have := apart v w first second
  have := apart w v second first
  omega

/-- A source that is known stays the only one of its id where another is added. -/
theorem once_before {ids : List SourceId} {id : SourceId} (known : id ∈ ids) (once : (ids ++ [new]).count id = 1) :
    id ≠ new ∧ ids.count id = 1 := by
  have present := List.count_pos_iff.mpr known
  rw [List.count_append] at once
  refine ⟨?_,by omega⟩
  rintro rfl
  simp at once
  omega

theorem Mirrored.step (mirrored : Mirrored m) (taken : Step sup checks m n) : Mirrored n := by
  intro other member once
  cases taken with
  | supervise id results nowMs =>
    have grown : (m.ids ++ [id]).count other.id = 1 := by simpa [Machine.ids] using once
    rcases List.mem_append.mp member with old | new
    · obtain ⟨ne,once⟩ := once_before (List.mem_map_of_mem old) grown
      rw [AList.lookup_insert_ne ne]
      exact mirrored other old once
    · cases List.mem_singleton.mp new
      rw [AList.lookup_insert]
      rfl
  | status w dog status restartCount nowMs found next =>
    rw [ids_moved found] at once
    obtain ⟨v,at_v⟩ := List.mem_iff_getElem?.mp member
    rcases getElem?_set_cases at_v with ⟨-,rfl⟩ | ⟨ne,old⟩
    · rw [shown_status next]
      exact lookup_setStatus (mirrored dog (List.mem_of_getElem? found) once) rfl
    · have apart : other.id ≠ dog.id := by
        intro same
        refine ne (place_unique once ?_ ?_)
        · simp [Machine.ids,found,same]
        · simp [Machine.ids,old]
      rw [setStatus,AList.lookup_insert_ne apart]
      exact mirrored other (List.mem_of_getElem? old) once
  | sleep w dog ms found next =>
    rw [ids_moved found] at once
    obtain ⟨v,at_v⟩ := List.mem_iff_getElem?.mp member
    rcases getElem?_set_cases at_v with ⟨-,rfl⟩ | ⟨-,old⟩
    · rw [shown_sleep next]
      exact mirrored dog (List.mem_of_getElem? found) once
    · exact mirrored other (List.mem_of_getElem? old) once

/-- A run adds watchdogs behind those that are there. -/
theorem ids_step (taken : Step sup checks m n) : m.ids <+: n.ids := by
  cases taken with
  | supervise id results nowMs =>
    refine ⟨[id],?_⟩
    simp [Machine.ids]
  | status w dog status restartCount nowMs found next =>
    rw [ids_moved found]
  | sleep w dog ms found next =>
    rw [ids_moved found]

theorem Looping.step (looping : ∀ dog ∈ m.watchdogs, Looping sup checks dog) (taken : Step sup checks m n) :
    ∀ dog ∈ n.watchdogs, Looping sup checks dog := by
  intro other member
  cases taken with
  | supervise id results nowMs =>
    rcases List.mem_append.mp member with old | new
    · exact looping other old
    · cases List.mem_singleton.mp new
      exact ⟨Nat.one_pos,results,rfl⟩
  | status w dog status restartCount nowMs found next =>
    rcases List.mem_or_eq_of_mem_set member with old | rfl
    · exact looping other old
    · exact ⟨Nat.succ_pos _,(looping dog (List.mem_of_getElem? found)).2⟩
  | sleep w dog ms found next =>
    rcases List.mem_or_eq_of_mem_set member with old | rfl
    · exact looping other old
    · exact ⟨Nat.succ_pos _,(looping dog (List.mem_of_getElem? found)).2⟩

def Watch.buries : Watch → Bool
  | .status now _ => now.isDead
  | .sleep _ => false

/-- Only the last thing a watchdog does can be to bury its source. -/
theorem watch_buries (checks : Bool) (maxBackoff backoff : UInt64) (restartCount : UInt32)
    (results : List (Except JoinError Unit)) :
    (watch checks maxBackoff backoff restartCount results).Pairwise fun earlier _ => earlier.buries = false := by
  induction results generalizing backoff restartCount with
  | nil => exact List.pairwise_singleton _ _
  | cons result rest ih =>
    cases result with
    | ok => simp [watch,Watch.buries,SourceStatus.isDead]
    | error joinErr =>
      rw [watch]
      split
      · simp [Watch.buries,SourceStatus.isDead]
      · split
        · simp
        · split
          · simp [Watch.buries,SourceStatus.isDead]
          · refine .cons (fun _ _ => rfl) (.cons (fun _ _ => rfl) (.cons (fun _ _ => rfl) (ih _ _)))

/-- The statuses count the restarts that they announce, from a number on. -/
def Counts : UInt32 → List Watch → Prop
  | _, [] => True
  | restarts, .sleep _ :: rest => Counts restarts rest
  | restarts, .status now restartCount :: rest =>
    restartCount = restarts + (if now.isRestarting then 1 else 0) ∧ Counts restartCount rest

theorem watch_counts (checks : Bool) (maxBackoff backoff : UInt64) (restartCount : UInt32)
    (results : List (Except JoinError Unit)) :
    Counts restartCount (watch checks maxBackoff backoff restartCount results) := by
  induction results generalizing backoff restartCount with
  | nil => simp [watch,Counts,SourceStatus.isRestarting]
  | cons result rest ih =>
    cases result with
    | ok => simp [watch,Counts,SourceStatus.isRestarting]
    | error joinErr =>
      rw [watch]
      split
      · simp [Counts,SourceStatus.isRestarting]
      · split
        · simp [Counts,SourceStatus.isRestarting]
        · rename_i counted
          cases Overflow.eq_of_arith counted
          split
          · simp [Counts,SourceStatus.isRestarting]
          · simp [Counts,SourceStatus.isRestarting,ih]

theorem Counts.take (counts : Counts restarts trace) (k : Nat) : Counts restarts (trace.take k) := by
  induction trace generalizing restarts k with
  | nil =>
    rw [List.take_nil]
    trivial
  | cons watch rest ih =>
    cases k with
    | zero => trivial
    | succ k =>
      cases watch with
      | sleep => exact ih counts k
      | status => exact ⟨counts.1,ih counts.2 k⟩

theorem Counts.last (counts : Counts restarts past) (said : (past.filterMap Watch.said) ≠ []) :
    ∃ now, (past.filterMap Watch.said).getLast? =
      some (now,restarts + .ofNat ((past.filterMap Watch.said).countP (·.1.isRestarting))) := by
  induction past generalizing restarts with
  | nil => exact absurd rfl said
  | cons watch rest ih =>
    cases watch with
    | sleep => exact ih counts said
    | status now restartCount =>
      obtain ⟨rfl,later⟩ := counts
      by_cases silent : rest.filterMap Watch.said = []
      · refine ⟨now,?_⟩
        cases announced : now.isRestarting <;> simp [Watch.said,silent,announced]
      · obtain ⟨last,shown⟩ := ih later silent
        refine ⟨last,?_⟩
        have front : ∀ n, (Watch.status now n :: rest).filterMap Watch.said =
            (now,n) :: rest.filterMap Watch.said := fun _ => rfl
        rw [front,List.getLast?_cons,shown,List.countP_cons]
        cases announced : now.isRestarting
        · simp
        · simp [UInt32.ofNat_add,UInt32.add_assoc,UInt32.add_comm 1]

theorem supervise_counts (sup : SourceSupervisor) (checks : Bool) (results : List (Except JoinError Unit)) :
    Counts 0 (sup.supervise checks results) :=
  ⟨rfl,watch_counts checks _ _ 0 results⟩

/-- The report on a source counts the restarts its watchdog has announced. -/
theorem Looping.restartCount (looping : Looping sup checks dog) :
    dog.shown.restartCount = .ofNat dog.restarts := by
  obtain ⟨started,results,trace⟩ := looping
  have counts : Counts 0 dog.past := by
    rw [Watchdog.past,trace]
    exact (supervise_counts sup checks results).take dog.taken
  have said : dog.past.filterMap Watch.said ≠ [] := by
    obtain ⟨k,taken⟩ := Nat.exists_eq_succ_of_ne_zero (Nat.pos_iff_ne_zero.mp started)
    rw [Watchdog.past,trace,taken,SourceSupervisor.supervise,List.take_succ_cons]
    exact List.cons_ne_nil _ _
  obtain ⟨now,last⟩ := counts.last said
  simp [Watchdog.shown,Watchdog.restarts,last]

/-- The reported sources are the entries under the keys. -/
theorem sources_eq (state : SourceStateMap) : (report state).sources = state.keys.filterMap state.lookup := by
  change state.entries.map (·.2) = (state.entries.map Sigma.fst).filterMap state.lookup
  rw [List.filterMap_map,← List.filterMap_eq_map]
  apply List.filterMap_congr
  intro entry member
  exact (AList.mem_lookup_iff.mpr member).symm

theorem Known.keys_perm (known : Known m) : m.state.keys.Perm m.ids.dedup := by
  rw [List.perm_ext_iff_of_nodup m.state.keys_nodup (List.nodup_dedup m.ids)]
  intro id
  rw [List.mem_dedup,← known id,AList.mem_keys]

theorem Known.total (known : Known m) : (report m.state).total = m.ids.dedup.length := by
  rw [← known.keys_perm.length_eq]
  simp [report,AList.keys,List.keys]

theorem Mirrored.sources (mirrored : Mirrored m) (known : Known m) (distinct : m.ids.Nodup) :
    (report m.state).sources.Perm (m.watchdogs.map Watchdog.shown) := by
  have same : m.ids.filterMap m.state.lookup = m.watchdogs.map Watchdog.shown := by
    rw [Machine.ids,List.filterMap_map,← List.filterMap_eq_map]
    refine List.filterMap_congr fun dog member => mirrored dog member ?_
    exact List.count_eq_one_of_mem distinct (List.mem_map_of_mem member)
  rw [sources_eq,← same]
  have perm := known.keys_perm
  rw [List.dedup_eq_self.mpr distinct] at perm
  exact perm.filterMap _

/-- What holds in every state. -/
structure Invariant (sup : SourceSupervisor) (checks : Bool) (m : Machine) : Prop where
  known : Known m
  looping : ∀ dog ∈ m.watchdogs, Looping sup checks dog
  mirrored : Mirrored m

theorem Invariant.step (inv : Invariant sup checks m) (taken : Step sup checks m n) : Invariant sup checks n where
  known := inv.known.step taken
  looping := Looping.step inv.looping taken
  mirrored := inv.mirrored.step taken

theorem invariant_of_run {actions : List Action} (ran : exec (step sup checks) {} actions = some m) :
    Invariant sup checks m := by
  have start : Invariant sup checks {} :=
    { known := by simp [Known,Machine.ids], looping := by simp, mirrored := by simp [Mirrored] }
  exact exec_history (I := fun _ m => Invariant sup checks m) start
    (fun _ _ _ _ inv taken => inv.step (step_cases taken)) ran

/-- In every interleaving of its watchdogs the supervisor, asked between two of their steps, reports as
many sources as there are different ones. Where none is supervised twice, it reports what each watchdog
has said last, and so counts each source under its status, with the restarts its watchdog has
announced. -/
theorem report_mirrors (sup : SourceSupervisor) (checks : Bool) (actions : List Action)
    (ran : exec (step sup checks) {} actions = some m) :
    (report m.state).total = m.ids.dedup.length ∧
    (m.ids.Nodup →
      (report m.state).sources.Perm (m.watchdogs.map Watchdog.shown) ∧
      (report m.state).running = m.watchdogs.countP (·.shown.status.isRunning) ∧
      (report m.state).restarting = m.watchdogs.countP (·.shown.status.isRestarting) ∧
      (report m.state).dead = m.watchdogs.countP (·.shown.status.isDead) ∧
      ∀ dog ∈ m.watchdogs, dog.shown.restartCount = .ofNat dog.restarts) := by
  have inv := invariant_of_run ran
  refine ⟨inv.known.total,?_⟩
  intro distinct
  have perm := inv.mirrored.sources inv.known distinct
  refine ⟨perm,?_,?_,?_,fun dog member => (inv.looping dog member).restartCount⟩
  all_goals
    simp only [report] at perm ⊢
    rw [perm.countP_eq,List.countP_map]
    rfl

def feed : SourceId := ⟨"app","feed","websocket"⟩

def ticks : SourceId := ⟨"app","ticks","websocket"⟩

def crash : Except JoinError Unit := .error ⟨true,false,"boom"⟩

/-- Two sources start, one of them crashes and starts again while the other one ends. -/
def twoSources : List Action :=
  [.supervise feed [crash] 1,.supervise ticks [.ok ()] 2,.poll 0 3,.poll 1 4,.poll 0 5,.poll 1 6,.poll 0 7]

theorem report_mirrors_two :
    ∃ m, exec (step .new true) {} twoSources = some m ∧ (report m.state).total = 2 ∧
      (report m.state).sources.Perm (m.watchdogs.map Watchdog.shown) := by
  refine ⟨_,rfl,?_⟩
  obtain ⟨total,mirrored⟩ := report_mirrors .new true twoSources rfl
  exact ⟨total,(mirrored (by decide)).1⟩

theorem buried_of_shown (dead : dog.shown.status.isDead = true) : ∃ watch ∈ dog.past, watch.buries = true := by
  cases last : (dog.past.filterMap Watch.said).getLast? with
  | none =>
    simp only [Watchdog.shown,last] at dead
    cases dead
  | some said =>
    simp only [Watchdog.shown,last,Option.getD_some] at dead
    obtain ⟨watch,member,same⟩ := List.mem_filterMap.mp (List.mem_of_getLast? last)
    refine ⟨watch,member,?_⟩
    cases watch with
    | sleep => cases same
    | status now restartCount =>
      cases same
      exact dead

/-- A watchdog that has buried its source takes no step. -/
theorem Looping.ended (looping : Looping sup checks dog) (dead : dog.shown.status.isDead = true) :
    dog.trace[dog.taken]? = none := by
  obtain ⟨-,results,trace⟩ := looping
  have order : dog.trace.Pairwise fun earlier _ => earlier.buries = false := by
    rw [trace]
    exact .cons (fun _ _ => rfl) (watch_buries checks _ _ 0 results)
  obtain ⟨watch,said,buries⟩ := buried_of_shown dead
  obtain ⟨k,at_k⟩ := List.mem_iff_getElem?.mp said
  rw [Watchdog.past,List.getElem?_take] at at_k
  split at at_k
  case isFalse => cases at_k
  case isTrue early =>
    rw [List.getElem?_eq_none_iff]
    by_contra more
    obtain ⟨inside,rfl⟩ := List.getElem?_eq_some_iff.mp at_k
    have alive := List.pairwise_iff_getElem.mp order k dog.taken inside (Nat.lt_of_not_le more) early
    rw [buries] at alive
    cases alive

theorem Invariant.buried {id : SourceId} {entry : SourceState} (inv : Invariant sup checks m)
    (taken : Step sup checks m n) (once : n.ids.count id = 1) (shown : m.state.lookup id = some entry)
    (dead : entry.status.isDead = true) : n.state.lookup id = some entry := by
  have present : id ∈ m.ids := (inv.known id).mp (AList.lookup_isSome.mp (by simp [shown]))
  cases taken with
  | supervise new results nowMs =>
    have grown : (m.ids ++ [new]).count id = 1 := by simpa [Machine.ids] using once
    rw [AList.lookup_insert_ne (once_before present grown).1]
    exact shown
  | status w dog status restartCount nowMs found next =>
    have member := List.mem_of_getElem? found
    have ne : id ≠ dog.id := by
      rintro rfl
      rw [ids_moved found] at once
      rw [inv.mirrored dog member once] at shown
      cases shown
      rw [(inv.looping dog member).ended dead] at next
      cases next
    rw [setStatus,AList.lookup_insert_ne ne]
    exact shown
  | sleep => exact shown

/-- A source that is reported dead is reported so ever after, as long as its id is supervised once. -/
theorem dead_is_final (sup : SourceSupervisor) (checks : Bool) (before after : List Action)
    (reached : exec (step sup checks) {} before = some m) (ran : exec (step sup checks) m after = some n)
    (id : SourceId) (once : n.ids.count id = 1) (entry : SourceState) (shown : m.state.lookup id = some entry)
    (dead : entry.status.isDead = true) : n.state.lookup id = some entry := by
  have kept := exec_history (I := fun _ n => Invariant sup checks n ∧ id ∈ n.ids ∧
    (n.ids.count id = 1 → n.state.lookup id = some entry)) ⟨invariant_of_run reached,?_,fun _ => shown⟩ ?_ ran
  · exact kept.2.2 once
  · exact ((invariant_of_run reached).known id).mp (AList.lookup_isSome.mp (by simp [shown]))
  · intro _ t _ u inv taken
    obtain ⟨inv,present,before⟩ := inv
    have moved := step_cases taken
    refine ⟨inv.step moved,(ids_step moved).subset present,?_⟩
    intro once
    have earlier := (ids_step moved).sublist.count_le id
    have held := List.count_pos_iff.mpr present
    exact inv.buried moved once (before (by omega)) dead

def ended : SourceState :=
  { id := ticks, status := .dead "clean exit", lastStatusChangeUnixMs := 6, restartCount := 0 }

/-- The one source stays dead while the other one runs on and is supervised once more. -/
theorem dead_is_final_two :
    ∃ m n, exec (step .new true) {} (twoSources.take 6) = some m ∧
      exec (step .new true) m [.poll 0 7,.supervise feed [.ok ()] 8] = some n ∧
      n.state.lookup ticks = some ended := by
  refine ⟨_,_,rfl,rfl,?_⟩
  exact dead_is_final .new true (twoSources.take 6) [.poll 0 7,.supervise feed [.ok ()] 8] rfl rfl ticks (by decide)
    ended rfl rfl

/-- Two files of one stem name one source (`sources/loader.rs`): the crash of the first is not to be seen
behind the clean exit of the second. -/
example : ((exec (step .new true) {} [.supervise feed [crash] 1,.supervise feed [.ok ()] 2,.poll 0 3,
    .poll 1 4,.poll 0 5,.poll 1 6]).map fun m => ((report m.state).total,(report m.state).dead)) = some (1,1) := rfl

end Ruuter.Supervisor
