import Ruuter.Lib.Table
import Ruuter.Lib.Transition

/-! Concurrent `reload_once` runs (`src/dsl/hot_reload.rs`). A run reads the directory once
and, if the load succeeds, makes the three stores of `publish_dsls`; the watcher waits for
its own run before it starts another, a `reload_dsl` step waits for nobody. -/
namespace Ruuter.Reload
open Transition Table

inductive Origin
  | watcher | step
deriving DecidableEq

/-- A reload: the directory version it read, whether the load succeeded, and how many of the
stores of `publish_dsls` it has made. -/
structure Run where
  origin : Origin
  version : Nat
  loaded : Bool
  stores : Nat := 0
deriving DecidableEq

/-- The published cells, in the order of their stores. -/
inductive Cell
  | dsls | guards | openapiSpec
deriving DecidableEq

def Cell.index : Cell → Nat
  | .dsls => 0
  | .guards => 1
  | .openapiSpec => 2

/-- A cell holds the number of the run that stored it last, `none` standing for the tree
loaded at boot. Runs are numbered in the order of their reads. -/
structure State where
  version : Nat := 0
  runs : List Run := []
  cells : Cell → Option Nat := fun _ => none

inductive Action
  | change
  | read (origin : Origin)
  | store (run : Nat)

def Run.finished (run : Run) : Bool := !run.loaded || run.stores == 3

/-- The cell a run stores next. -/
def Run.target (run : Run) : Option Cell :=
  if run.loaded then
    match run.stores with
    | 0 => some .dsls
    | 1 => some .guards
    | 2 => some .openapiSpec
    | _ => none
  else none

/-- `loads v` says whether `load_everything` accepts the directory at version `v`. -/
def step (loads : Nat → Bool) (s : State) : Action → Option State
  | .change => some { s with version := s.version + 1 }
  | .read origin =>
    if origin = .watcher ∧ ∃ run ∈ s.runs, run.origin = .watcher ∧ run.finished = false then none
    else
      some { s with runs := s.runs ++ [{ origin, version := s.version, loaded := loads s.version }] }
  | .store r =>
    match s.runs[r]? with
    | some run =>
      match run.target with
      | some cell =>
        some { s with
          runs := s.runs.modify r fun run => { run with stores := run.stores + 1 }
          cells := fun other => if other = cell then some r else s.cells other }
      | none => none
    | none => none

/-- Once every run has finished, all cells come from one run that read the newest version,
or no run has loaded anything and the boot tree is still there. -/
def Converged (s : State) : Prop :=
  (∀ run ∈ s.runs, run.finished = true) →
    (∀ run ∈ s.runs, run.loaded = false) ∧ (∀ cell, s.cells cell = none) ∨
    ∃ (r : Nat) (run : Run), s.runs[r]? = some run ∧ run.loaded = true ∧
      (∀ cell, s.cells cell = some r) ∧
      ∀ other ∈ s.runs, other.loaded = true → other.version ≤ run.version

/-- No run that read the directory later has already stored the cell. -/
def Ordered (t : State) : Action → Prop
  | .store r => ∀ run ∈ t.runs[r]?, ∀ later ∈ t.runs.drop (r + 1), later.stores ≤ run.stores
  | _ => True

instance : (a : Action) → Decidable (Ordered t a)
  | .store r =>
    inferInstanceAs (Decidable (∀ run ∈ t.runs[r]?, ∀ later ∈ t.runs.drop (r + 1), _))
  | .change | .read _ => .isTrue trivial

/-- The cell a run stores next has the number of the stores it has made. -/
theorem target_index {run : Run} (target : run.target = some cell) :
    run.loaded = true ∧ cell.index = run.stores := by
  unfold Run.target at target
  split at target
  · rename_i loaded
    refine ⟨loaded,?_⟩
    split at target
    · cases target
      symm
      assumption
    · cases target
      symm
      assumption
    · cases target
      symm
      assumption
    · cases target
  · cases target

theorem Cell.index_lt (cell : Cell) : cell.index < 3 := by
  cases cell <;> decide

theorem Cell.index_inj {left right : Cell} : left.index = right.index ↔ left = right := by
  cases left <;> cases right <;> decide

/-- Versions grow with the run numbers, and a cell comes from the newest run that has
stored it. -/
structure Invariant (s : State) : Prop where
  current : ∀ (q : Nat) (run : Run), s.runs[q]? = some run → run.version ≤ s.version
  sorted : ∀ (q r : Nat) (earlier later : Run), q ≤ r → s.runs[q]? = some earlier →
    s.runs[r]? = some later → earlier.version ≤ later.version
  bounded : ∀ (q : Nat) (run : Run), s.runs[q]? = some run → run.loaded = false → run.stores = 0
  empty : ∀ cell, s.cells cell = none → ∀ (q : Nat) (run : Run), s.runs[q]? = some run →
    run.stores ≤ cell.index
  newest : ∀ cell r, s.cells cell = some r →
    (∃ run, s.runs[r]? = some run ∧ cell.index < run.stores) ∧
    ∀ (q : Nat) (other : Run), s.runs[q]? = some other → cell.index < other.stores → q ≤ r

variable {s t : State} {run : Run}

/-- A new run has the newest version and has stored nothing. -/
theorem Invariant.read (inv : Invariant s) (version : run.version = s.version)
    (stores : run.stores = 0) : Invariant { s with runs := s.runs ++ [run] } := by
  constructor
  · intro q other found
    rcases getElem?_snoc_cases found with old | ⟨-,rfl⟩
    · exact inv.current q other old
    · exact Nat.le_of_eq version
  · intro q r earlier later le foundQ foundR
    rcases getElem?_snoc_cases foundQ with oldQ | ⟨lastQ,rfl⟩ <;>
      rcases getElem?_snoc_cases foundR with oldR | ⟨lastR,rfl⟩
    · exact inv.sorted q r earlier later le oldQ oldR
    · rw [version]
      exact inv.current q earlier oldQ
    · obtain ⟨below,-⟩ := List.getElem?_eq_some_iff.mp oldR
      omega
    · exact Nat.le_refl _
  · intro q other found unloaded
    rcases getElem?_snoc_cases found with old | ⟨-,rfl⟩
    · exact inv.bounded q other old unloaded
    · exact stores
  · intro cell none q other found
    rcases getElem?_snoc_cases found with old | ⟨-,rfl⟩
    · exact inv.empty cell none q other old
    · omega
  · intro cell r holds
    obtain ⟨⟨holder,found,stored⟩,latest⟩ := inv.newest cell r holds
    refine ⟨⟨holder,getElem?_snoc_old found,stored⟩,?_⟩
    intro q other foundQ storedQ
    rcases getElem?_snoc_cases foundQ with old | ⟨-,rfl⟩
    · exact latest q other old storedQ
    · omega

/-- A store that overtakes no later run keeps every cell with its newest run. -/
theorem Invariant.store (inv : Invariant s) (found : s.runs[r]? = some run)
    (target : run.target = some cell)
    (ordered : ∀ later ∈ s.runs.drop (r + 1), later.stores ≤ run.stores) :
    Invariant { s with
      runs := s.runs.modify r fun run => { run with stores := run.stores + 1 }
      cells := fun other => if other = cell then some r else s.cells other } := by
  obtain ⟨loaded,index⟩ := target_index target
  have back : ∀ (q : Nat) (other : Run),
      (s.runs.modify r fun run => { run with stores := run.stores + 1 })[q]? = some other →
      ∃ before, s.runs[q]? = some before ∧ other.version = before.version ∧
        other.loaded = before.loaded ∧
        (r ≠ q ∧ other.stores = before.stores ∨
          r = q ∧ before = run ∧ other.stores = run.stores + 1) := by
    intro q other foundQ
    obtain ⟨before,foundB,⟨different,rfl⟩ | ⟨rfl,rfl⟩⟩ := getElem?_modify_cases foundQ
    · exact ⟨other,foundB,rfl,rfl,.inl ⟨different,rfl⟩⟩
    · obtain rfl := Option.some.inj (found.symm.trans foundB)
      exact ⟨run,found,rfl,rfl,.inr ⟨rfl,rfl,rfl⟩⟩
  have overtaken : ∀ (q : Nat) (other : Run), s.runs[q]? = some other → r < q →
      other.stores ≤ run.stores := by
    intro q other foundQ later
    apply ordered
    refine List.mem_iff_getElem?.mpr ⟨q - (r + 1),?_⟩
    rw [List.getElem?_drop,show r + 1 + (q - (r + 1)) = q by omega]
    exact foundQ
  constructor
  · intro q other foundQ
    obtain ⟨before,foundB,version,-⟩ := back q other foundQ
    rw [version]
    exact inv.current q before foundB
  · intro p q earlier later le foundP foundQ
    obtain ⟨beforeP,foundBP,versionP,-⟩ := back p earlier foundP
    obtain ⟨beforeQ,foundBQ,versionQ,-⟩ := back q later foundQ
    rw [versionP,versionQ]
    exact inv.sorted p q beforeP beforeQ le foundBP foundBQ
  · intro q other foundQ unloaded
    obtain ⟨before,foundB,-,load,⟨-,stores⟩ | ⟨-,rfl,-⟩⟩ := back q other foundQ
    · rw [stores]
      exact inv.bounded q before foundB (by rw [← load,unloaded])
    · rw [load,loaded] at unloaded
      cases unloaded
  · intro other none q later foundQ
    dsimp only at none
    split at none
    · cases none
    · rename_i different
      obtain ⟨before,foundB,-,-,⟨-,stores⟩ | ⟨rfl,rfl,stores⟩⟩ := back q later foundQ
      · rw [stores]
        exact inv.empty other none q before foundB
      · have old := inv.empty other none r before found
        have ne : other.index ≠ cell.index := fun eq => different (Cell.index_inj.mp eq)
        omega
  · intro other holder holds
    dsimp only at holds
    split at holds
    · rename_i same
      cases holds
      subst same
      refine ⟨⟨{ run with stores := run.stores + 1 },by simp [found],?_⟩,?_⟩
      · simp only
        omega
      · intro q later foundQ stored
        obtain ⟨before,foundB,-,-,⟨-,stores⟩ | ⟨rfl,-,-⟩⟩ := back q later foundQ
        · by_contra beyond
          have := overtaken q before foundB (by omega)
          omega
        · exact Nat.le_refl _
    · rename_i different
      have ne : other.index ≠ cell.index := fun eq => different (Cell.index_inj.mp eq)
      obtain ⟨⟨old,foundO,stored⟩,latest⟩ := inv.newest other holder holds
      refine ⟨?_,?_⟩
      · by_cases same : r = holder
        · subst same
          obtain rfl := Option.some.inj (found.symm.trans foundO)
          refine ⟨{ run with stores := run.stores + 1 },by simp [found],?_⟩
          simp only
          omega
        · exact ⟨old,by simp [same,foundO],stored⟩
      · intro q later foundQ storedQ
        obtain ⟨before,foundB,-,-,⟨-,stores⟩ | ⟨rfl,rfl,stores⟩⟩ := back q later foundQ
        · exact latest q before foundB (by omega)
        · exact latest r before found (by omega)

theorem Invariant.step (inv : Invariant s) (taken : step loads s a = some t) (ordered : Ordered s a) :
    Invariant t := by
  cases a with
  | change =>
    cases taken
    exact ⟨fun q run found => Nat.le_succ_of_le (inv.current q run found),inv.sorted,inv.bounded,
      inv.empty,inv.newest⟩
  | read origin =>
    simp only [Reload.step,Option.ite_none_left_eq_some,Option.some.injEq] at taken
    obtain ⟨-,rfl⟩ := taken
    exact inv.read rfl rfl
  | store r =>
    simp only [Reload.step] at taken
    split at taken
    · rename_i run found
      split at taken
      · rename_i cell target
        cases taken
        exact inv.store found target (ordered run found)
      · cases taken
    · cases taken

/-- A finished run that loaded has stored every cell. -/
theorem stored_of_finished (finished : run.finished = true) (loaded : run.loaded = true) (cell : Cell) :
    cell.index < run.stores := by
  have stores : run.stores = 3 := by simpa [Run.finished,loaded] using finished
  rw [stores]
  exact cell.index_lt

theorem Invariant.converged (inv : Invariant s) : Converged s := by
  intro finished
  cases boot : s.cells .dsls with
  | none =>
    have unloaded : ∀ run ∈ s.runs, run.loaded = false := by
      intro run member
      obtain ⟨q,found⟩ := List.mem_iff_getElem?.mp member
      have none := inv.empty .dsls boot q run found
      by_contra loaded
      have := stored_of_finished (finished run member) (by simpa using loaded) .dsls
      omega
    refine .inl ⟨unloaded,fun cell => ?_⟩
    cases holds : s.cells cell with
    | none => rfl
    | some r =>
      obtain ⟨⟨run,found,stored⟩,-⟩ := inv.newest cell r holds
      have none := inv.bounded r run found (unloaded run (List.mem_of_getElem? found))
      omega
  | some r =>
    obtain ⟨⟨run,found,stored⟩,latest⟩ := inv.newest .dsls r boot
    have loaded : run.loaded = true := by
      by_contra unloaded
      have := inv.bounded r run found (by simpa using unloaded)
      omega
    have finishedRun := finished run (List.mem_of_getElem? found)
    have newer : ∀ (q : Nat) (other : Run), s.runs[q]? = some other → other.loaded = true → q ≤ r :=
      fun q other foundQ loadedQ => latest q other foundQ
        (stored_of_finished (finished other (List.mem_of_getElem? foundQ)) loadedQ .dsls)
    refine .inr ⟨r,run,found,loaded,?_,?_⟩
    · intro cell
      have stored := stored_of_finished finishedRun loaded cell
      cases holds : s.cells cell with
      | none =>
        have := inv.empty cell holds r run found
        omega
      | some q =>
        obtain ⟨⟨holder,foundQ,storedQ⟩,latestQ⟩ := inv.newest cell q holds
        have loadedQ : holder.loaded = true := by
          by_contra unloaded
          have := inv.bounded q holder foundQ (by simpa using unloaded)
          omega
        have le := newer q holder foundQ loadedQ
        have ge := latestQ r run found stored
        rw [Nat.le_antisymm le ge]
    · intro other member loadedQ
      obtain ⟨q,foundQ⟩ := List.mem_iff_getElem?.mp member
      exact inv.sorted q r other run (newer q other foundQ loadedQ) foundQ found

/-- Reloads converge in every run in which no store overtakes a run that read later. -/
theorem converged_of_ordered (loads : Nat → Bool) (actions : List Action)
    (ordered : Along (step loads) (fun t a _ => Ordered t a) {} actions)
    (reached : exec (step loads) {} actions = some s) : Converged s := by
  have initial : Invariant {} := by constructor <;> simp
  exact (ordered.invariant initial (fun _ _ _ inv taken good => inv.step taken good) reached).converged

/-- Two `reload_dsl` steps: the first reads the old directory and publishes last. -/
def staleSchedule : List Action :=
  [.read .step,.change,.read .step,.store 1,.store 1,.store 1,.store 0,.store 0,.store 0]

theorem stale_not_converged :
    ∃ s, exec (step fun _ => true) {} staleSchedule = some s ∧ ¬Converged s := by
  refine ⟨_,rfl,fun converged => ?_⟩
  rcases converged (by decide) with ⟨-,boot⟩ | ⟨r,run,found,-,cells,newest⟩
  · cases boot .dsls
  · cases cells .dsls
    cases found
    have := newest _ (List.mem_of_getElem? (i := 1) rfl) rfl
    revert this
    decide

/-- A step and the watcher reload at the same time, the step ahead in every cell. -/
def orderedSchedule : List Action :=
  [.read .step,.change,.store 0,.read .watcher,.store 0,.store 1,.store 0,.store 1,.store 1]

theorem ordered_reloads_converge :
    ∃ s, exec (step fun _ => true) {} orderedSchedule = some s ∧ Converged s ∧
      ∀ cell, s.cells cell = some 1 := by
  refine ⟨_,rfl,converged_of_ordered (fun _ => true) orderedSchedule (by decide) rfl,fun cell => ?_⟩
  cases cell <;> rfl

end Ruuter.Reload
