import Ruuter.Lib.Table
import Ruuter.Lib.Transition
import Ruuter.State

/-! The state store (`src/state/mod.rs`) as the atomic accesses of its calls. `inner` and
`project_counts` are two maps; a call of `set`, `delete` or `update` touches them in several
steps, and calls interleave. `project_counts` has no lock that outlives an access, while the
shard of a key in `inner` can stay locked over several of them. -/
namespace Ruuter.StateStore
open Transition Table

/-- `StateStore::with_max_entries_per_project`. -/
def withMaxEntriesPerProject (max : Nat) : StateStore := { maxEntriesPerProject := some max }

def count (s : StateStore) (project : String) : Nat := (s.projectCounts.lookup project).getD 0

/-- The number of keys of a project in `inner`. -/
def entries (s : StateStore) (project : String) : Nat := s.inner.keys.countP (·.project == project)

def projectEntryCount (s : StateStore) (project : String) : Nat :=
  if s.maxEntriesPerProject.isSome then s.count project else s.entries project

/-- The rejection text of `update`. -/
def updateCapMessage (project : String) (current cap : Nat) : String :=
  "state.update rejected for project '" ++ project ++ "': entry count " ++ toString current ++
    " reached the cap max_entries_per_project=" ++ toString cap ++ " (h2ck.me v1 T-5)."

def put (s : StateStore) (at_ : StateKey) (value : Json) : StateStore :=
  { s with inner := s.inner.insert at_ value }

def take (s : StateStore) (at_ : StateKey) : StateStore :=
  { s with inner := s.inner.erase at_ }

/-- `entry(project).and_modify(|c| *c += 1).or_insert(1)`. -/
def bump (s : StateStore) (project : String) : StateStore :=
  { s with projectCounts := s.projectCounts.insert project (s.count project + 1) }

/-- `entry(project).and_modify(|c| *c = c.saturating_sub(1))`: no entry is made. -/
def decrement (s : StateStore) (project : String) : StateStore :=
  match s.projectCounts.lookup project with
  | some count => { s with projectCounts := s.projectCounts.insert project (count - 1) }
  | none => s

inductive Call
  | set (target : StateKey) (value : Json)
  | delete (target : StateKey)
  | update (target : StateKey) (f : Option Json → Json)

def Call.target : Call → StateKey
  | .set target _ | .delete target | .update target _ => target

/-- `set` and `update` write their key; `delete` only removes it. -/
def Call.writes : Call → Bool
  | .set .. | .update .. => true
  | .delete _ => false

/-- Where a call stands between two accesses. `vacant`, `counted` and `bumped` belong to the
`Vacant` arm of `set`, `removed` to `delete`, and `found`, `missed`, `admitted` and `entered`
to `update`: `found` and `missed` are the two answers of `contains_key`. -/
inductive Phase
  | invoked
  | vacant
  | counted
  | bumped
  | removed (value : Json)
  | found
  | missed
  | admitted
  | entered (next : Json)
  | returned (result : Except String (Option Json))

namespace Phase

/-- The shard of the call's key is locked: by the `Vacant` entry of `set`, or by the `RefMut`
that `update` keeps to its end. -/
def holds : Phase → Bool
  | .vacant | .counted | .bumped | .entered _ => true
  | _ => false

/-- `set` is in its `Vacant` arm. -/
def reserves : Phase → Bool
  | .vacant | .counted | .bumped => true
  | _ => false

/-- `update` has inserted a key that it has not counted. -/
def uncounted : Phase → Bool
  | .entered _ => true
  | _ => false

/-- The count is one ahead: `set` has counted a key before inserting it, or `delete` has
removed one that is still counted. -/
def ahead : Phase → Bool
  | .bumped | .removed _ => true
  | _ => false

theorem holds_of_reserves {phase : Phase} (reserves : phase.reserves = true) : phase.holds = true := by
  cases phase <;> simp_all [Phase.reserves,Phase.holds]

theorem holds_of_uncounted {phase : Phase} (waits : phase.uncounted = true) : phase.holds = true := by
  cases phase <;> simp_all [Phase.uncounted,Phase.holds]

def done : Phase → Bool
  | .returned _ => true
  | _ => false

/-- The next access is one to `inner` and needs the shard. -/
def touches : Phase → Bool
  | .invoked | .found | .admitted => true
  | _ => false

end Phase

/-- One atomic access of a call and where the call stands after it. -/
def access (s : StateStore) : Call → Phase → Option (StateStore × Phase)
  | .set target value, .invoked =>
    if target ∈ s.inner then some (s.put target value,.returned (.ok none)) else some (s,.vacant)
  | .set target value, .vacant =>
    match s.maxEntriesPerProject with
    | none => some (s.put target value,.returned (.ok none))
    | some cap =>
      let current := s.count target.project
      if cap ≤ current then some (s,.returned (.error (capMessage target.project current cap)))
      else some (s,.counted)
  | .set target _, .counted => some (s.bump target.project,.bumped)
  | .set target value, .bumped => some (s.put target value,.returned (.ok none))
  | .delete target, .invoked =>
    match s.inner.lookup target with
    | none => some (s,.returned (.ok none))
    | some value =>
      if s.maxEntriesPerProject.isSome then some (s.take target,.removed value)
      else some (s.take target,.returned (.ok (some value)))
  | .delete target, .removed value =>
    some (s.decrement target.project,.returned (.ok (some value)))
  | .update target _, .invoked => some (s,if target ∈ s.inner then .found else .missed)
  | .update target _, .missed =>
    match s.maxEntriesPerProject with
    | none => some (s,.admitted)
    | some cap =>
      let current := s.count target.project
      if cap ≤ current then some (s,.returned (.error (updateCapMessage target.project current cap)))
      else some (s,.admitted)
  | .update target f, .found =>
    let next := f (some ((s.inner.lookup target).getD .null))
    some (s.put target next,.returned (.ok (some next)))
  | .update target f, .admitted =>
    let next := f (some ((s.inner.lookup target).getD .null))
    some (s.put target next,.entered next)
  | .update target _, .entered next =>
    some (if s.maxEntriesPerProject.isSome then s.bump target.project else s,
      .returned (.ok (some next)))
  | _, _ => none

/-- A call of the store that runs alone: its accesses in a row, at most four. -/
def finish (call : Call) : Nat → StateStore × Phase → StateStore × Phase
  | 0, at_ => at_
  | n + 1, (s,phase) =>
    match access s call phase with
    | some after => finish call n after
    | none => (s,phase)

def perform (s : StateStore) (call : Call) : StateStore × Phase := finish call 4 (s,.invoked)

structure Running where
  call : Call
  phase : Phase := .invoked

/-- The call has inserted a key of the project that it has not counted. -/
def Running.uncounted (project : String) (r : Running) : Bool :=
  r.phase.uncounted && r.call.target.project == project

def Running.ahead (project : String) (r : Running) : Bool :=
  r.phase.ahead && r.call.target.project == project

structure Machine where
  store : StateStore
  calls : List Running

/-- Some call holds the shard of the key. -/
def Machine.locked [DecidableEq σ] (shard : StateKey → σ) (m : Machine) (target : StateKey) : Bool :=
  m.calls.any fun r => r.phase.holds && shard r.call.target == shard target

/-- Call number `c` makes its next access. -/
def step [DecidableEq σ] (shard : StateKey → σ) (m : Machine) (c : Nat) : Option Machine :=
  match m.calls[c]? with
  | some ⟨call,phase⟩ =>
    if phase.touches && m.locked shard call.target then none
    else (access m.store call phase).map fun after =>
      { store := after.1, calls := m.calls.set c ⟨call,after.2⟩ }
  | none => none

def start (cap : Nat) (calls : List Call) : Machine :=
  { store := withMaxEntriesPerProject cap, calls := calls.map fun call => ⟨call,.invoked⟩ }

/-- Every call has returned. -/
def Machine.Quiescent (m : Machine) : Prop := ∀ r ∈ m.calls, r.phase.done = true

instance : Decidable (Machine.Quiescent m) :=
  inferInstanceAs (Decidable (∀ r ∈ m.calls, r.phase.done = true))

/-- `update` inserts a key as it found it: `entry` sees what `contains_key` saw. -/
def SameKey (s : StateStore) (target : StateKey) : Phase → Prop
  | .found => target ∈ s.inner
  | .admitted => target ∉ s.inner
  | _ => True

instance : (phase : Phase) → Decidable (SameKey s target phase)
  | .found => inferInstanceAs (Decidable (target ∈ s.inner))
  | .admitted => inferInstanceAs (Decidable (target ∉ s.inner))
  | .invoked | .vacant | .counted | .bumped | .removed _ | .missed | .entered _ | .returned _ =>
    .isTrue trivial

/-- The access that call number `c` makes next finds its key as that call left it. -/
def Steady (m : Machine) (c : Nat) : Prop :=
  ∀ r ∈ m.calls[c]?, SameKey m.store r.call.target r.phase

instance : Decidable (Steady m c) := inferInstanceAs (Decidable (∀ r ∈ m.calls[c]?, _))

section maps

variable {s : StateStore} {target other : StateKey} {project q : String}

@[simp] theorem count_put : (s.put target value).count q = s.count q := rfl

@[simp] theorem count_take : (s.take target).count q = s.count q := rfl

@[simp] theorem entries_bump : (s.bump project).entries q = s.entries q := rfl

@[simp] theorem inner_bump : (s.bump project).inner = s.inner := rfl

@[simp] theorem inner_decrement : (s.decrement project).inner = s.inner := by
  simp only [decrement]
  split <;> rfl

@[simp] theorem entries_decrement : (s.decrement project).entries q = s.entries q := by
  simp [entries]

@[simp] theorem cap_decrement :
    (s.decrement project).maxEntriesPerProject = s.maxEntriesPerProject := by
  simp only [decrement]
  split <;> rfl

theorem count_bump :
    (s.bump project).count q = s.count q + if project = q then 1 else 0 := by
  by_cases same : project = q
  · subst same
    simp [bump,count]
  · simp [bump,count,same,AList.lookup_insert_ne (Ne.symm same)]

theorem count_decrement :
    (s.decrement project).count q = s.count q - if project = q then 1 else 0 := by
  by_cases same : project = q
  · subst same
    cases known : s.projectCounts.lookup project <;> simp [decrement,count,known]
  · cases known : s.projectCounts.lookup project <;>
      simp [decrement,count,known,same,AList.lookup_insert_ne (Ne.symm same)]

theorem counts_bump_ne (ne : q ≠ project) :
    (s.bump project).projectCounts.lookup q = s.projectCounts.lookup q := by
  simp [bump,AList.lookup_insert_ne ne]

theorem counts_decrement_ne (ne : q ≠ project) :
    (s.decrement project).projectCounts.lookup q = s.projectCounts.lookup q := by
  simp only [decrement]
  split
  · simp [AList.lookup_insert_ne ne]
  · rfl

theorem countP_keys_erase (present : target ∈ s.inner) :
    (s.inner.keys.erase target).countP (·.project == q) + (if target.project = q then 1 else 0) =
      s.entries q := by
  have split := (List.perm_cons_erase (AList.mem_keys.mp present)).countP_eq (·.project == q)
  simp only [List.countP_cons,beq_iff_eq] at split
  exact split.symm

theorem entries_put_present (present : target ∈ s.inner) :
    (s.put target value).entries q = s.entries q := by
  have split := countP_keys_erase (q := q) present
  simp only [put,entries,AList.keys_insert,List.countP_cons,beq_iff_eq] at split ⊢
  omega

theorem entries_put_absent (absent : target ∉ s.inner) :
    (s.put target value).entries q = s.entries q + if target.project = q then 1 else 0 := by
  have gone : s.inner.keys.erase target = s.inner.keys :=
    List.erase_of_not_mem (fun found => absent (AList.mem_keys.mpr found))
  simp [put,entries,gone,List.countP_cons]

theorem entries_take (present : target ∈ s.inner) :
    (s.take target).entries q + (if target.project = q then 1 else 0) = s.entries q := by
  have split := countP_keys_erase (q := q) present
  simpa [take,entries] using split

end maps

variable {s t u : StateStore} {call : Call} {phase phase' : Phase} {m n : Machine}
  {target other : StateKey} {cap : Nat}

/-- An access leaves every other entry and every other project's count alone. -/
structure Framed (s : StateStore) (target : StateKey) (t : StateStore) : Prop where
  cap : t.maxEntriesPerProject = s.maxEntriesPerProject
  inner : ∀ other, other ≠ target → t.inner.lookup other = s.inner.lookup other
  counts : ∀ q, q ≠ target.project → t.projectCounts.lookup q = s.projectCounts.lookup q

namespace Framed

theorem refl (s : StateStore) (target : StateKey) : Framed s target s :=
  ⟨rfl,fun _ _ => rfl,fun _ _ => rfl⟩

theorem put (s : StateStore) (target : StateKey) (value : Json) :
    Framed s target (s.put target value) :=
  ⟨rfl,fun _ ne => AList.lookup_insert_ne ne,fun _ _ => rfl⟩

theorem take (s : StateStore) (target : StateKey) : Framed s target (s.take target) :=
  ⟨rfl,fun _ ne => AList.lookup_erase_ne ne,fun _ _ => rfl⟩

theorem bump (s : StateStore) (target : StateKey) : Framed s target (s.bump target.project) :=
  ⟨rfl,fun _ _ => rfl,fun _ ne => counts_bump_ne ne⟩

theorem decrement (s : StateStore) (target : StateKey) :
    Framed s target (s.decrement target.project) :=
  ⟨cap_decrement,fun _ _ => by rw [inner_decrement],fun _ ne => counts_decrement_ne ne⟩

theorem trans (first : Framed s target t) (second : Framed t target u) : Framed s target u :=
  ⟨second.cap.trans first.cap,fun other ne => (second.inner other ne).trans (first.inner other ne),
    fun q ne => (second.counts q ne).trans (first.counts q ne)⟩

theorem mem (framed : Framed s target t) (ne : other ≠ target) :
    other ∈ t.inner ↔ other ∈ s.inner := by
  rw [← AList.lookup_isSome,← AList.lookup_isSome,framed.inner other ne]

end Framed

theorem access_framed (made : access s call phase = some (t,phase')) : Framed s call.target t := by
  cases call <;> cases phase <;> simp only [access] at made
  all_goals first
    | contradiction
    | (repeat' split at made) <;> cases made <;> first
      | exact .refl _ _
      | exact .put _ _ _
      | exact .take _ _
      | exact .bump _ _
      | exact .decrement _ _

/-- Everything a call that runs alone can do. -/
inductive Alone (cap : Nat) (s : StateStore) : Call → StateStore → Except String (Option Json) → Prop
  | overwrite {c : Call} (writes : c.writes = true) (present : c.target ∈ s.inner) :
    Alone cap s c (s.put c.target value) (.ok answer)
  | insert {c : Call} (writes : c.writes = true) (absent : c.target ∉ s.inner)
      (room : s.count c.target.project < cap) :
    Alone cap s c ((s.bump c.target.project).put c.target value) (.ok answer)
  | rejected {c : Call} (absent : c.target ∉ s.inner) (full : cap ≤ s.count c.target.project) :
    Alone cap s c s (.error message)
  | remove {at_ : StateKey} (present : at_ ∈ s.inner) :
    Alone cap s (.delete at_) ((s.take at_).decrement at_.project) (.ok answer)
  | missing {at_ : StateKey} : Alone cap s (.delete at_) s (.ok none)

theorem perform_alone (capped : s.maxEntriesPerProject = some cap) (c : Call) :
    ∃ result, (perform s c).2 = .returned result ∧ Alone cap s c (perform s c).1 result := by
  cases c with
  | set target value =>
    by_cases present : target ∈ s.inner
    · have shape : perform s (.set target value) = (s.put target value,.returned (.ok none)) := by
        simp [perform,finish,access,present]
      rw [shape]
      exact ⟨_,rfl,.overwrite rfl present⟩
    · by_cases full : cap ≤ s.count target.project
      · have shape : perform s (.set target value) = (s,.returned (.error
            (capMessage target.project (s.count target.project) cap))) := by
          simp [perform,finish,access,present,capped,full]
        rw [shape]
        exact ⟨_,rfl,.rejected present full⟩
      · have shape : perform s (.set target value) =
            ((s.bump target.project).put target value,.returned (.ok none)) := by
          simp [perform,finish,access,present,capped,full]
        rw [shape]
        exact ⟨_,rfl,.insert rfl present (Nat.lt_of_not_le full)⟩
  | delete target =>
    cases found : s.inner.lookup target with
    | none =>
      have shape : perform s (.delete target) = (s,.returned (.ok none)) := by
        simp [perform,finish,access,found]
      rw [shape]
      exact ⟨_,rfl,.missing⟩
    | some value =>
      have present : target ∈ s.inner := AList.lookup_isSome.mp (by simp [found])
      have shape : perform s (.delete target) =
          ((s.take target).decrement target.project,.returned (.ok (some value))) := by
        simp [perform,finish,access,found,capped]
      rw [shape]
      exact ⟨_,rfl,.remove present⟩
  | update target f =>
    let next := f (some ((s.inner.lookup target).getD .null))
    by_cases present : target ∈ s.inner
    · have shape : perform s (.update target f) = (s.put target next,.returned (.ok (some next))) := by
        simp [perform,finish,access,present,next]
      rw [shape]
      exact ⟨_,rfl,.overwrite rfl present⟩
    · by_cases full : cap ≤ s.count target.project
      · have shape : perform s (.update target f) = (s,.returned (.error
            (updateCapMessage target.project (s.count target.project) cap))) := by
          simp [perform,finish,access,present,capped,full]
        rw [shape]
        exact ⟨_,rfl,.rejected present full⟩
      · have capped' : (s.put target next).maxEntriesPerProject = some cap := capped
        have shape : perform s (.update target f) =
            ((s.put target next).bump target.project,.returned (.ok (some next))) := by
          simp [perform,finish,access,present,capped,capped',full,next]
        rw [shape]
        exact ⟨_,rfl,.insert rfl present (Nat.lt_of_not_le full)⟩

/-- `StateStore.set` is a `set` that runs alone. -/
theorem perform_set (s : StateStore) (project key : String) (value : Json) :
    perform s (.set ⟨project,key⟩ value) =
      match s.set project key value with
      | .ok t => (t,.returned (.ok none))
      | .error message => (s,.returned (.error message)) := by
  by_cases present : (⟨project,key⟩ : StateKey) ∈ s.inner
  · simp [perform,finish,access,set,present,put]
  · cases capped : s.maxEntriesPerProject with
    | none => simp [perform,finish,access,set,present,capped,put]
    | some cap =>
      by_cases full : cap ≤ (s.projectCounts.lookup project).getD 0
      · simp [perform,finish,access,set,present,capped,full,count]
      · simp [perform,finish,access,set,present,capped,full,count,put,bump]

/-- `StateStore.delete` is a `delete` that runs alone. -/
theorem perform_delete (s : StateStore) (project key : String) :
    (perform s (.delete ⟨project,key⟩)).1 = s.delete project key := by
  cases found : s.inner.lookup ⟨project,key⟩ with
  | none =>
    have absent := AList.lookup_eq_none.mp found
    simp [perform,finish,access,delete,found,absent]
  | some value =>
    have present : (⟨project,key⟩ : StateKey) ∈ s.inner := AList.lookup_isSome.mp (by simp [found])
    cases capped : s.maxEntriesPerProject with
    | none => simp [perform,finish,access,delete,found,present,capped,take]
    | some cap =>
      cases known : s.projectCounts.lookup project <;>
        simp [perform,finish,access,delete,found,present,capped,take,decrement,known]

/-- In a machine with one call, that call makes the accesses of `perform`. -/
theorem finish_exec [DecidableEq σ] (shard : StateKey → σ) (call : Call) (n : Nat) (s : StateStore)
    (phase : Phase) :
    ∃ k, exec (step shard) ⟨s,[⟨call,phase⟩]⟩ (List.replicate k 0) =
      some ⟨(finish call n (s,phase)).1,[⟨call,(finish call n (s,phase)).2⟩]⟩ := by
  induction n generalizing s phase with
  | zero => exact ⟨0,rfl⟩
  | succ n ih =>
    cases made : access s call phase with
    | none => exact ⟨0,by simp [finish,made]⟩
    | some after =>
      obtain ⟨t,phase'⟩ := after
      obtain ⟨k,rest⟩ := ih t phase'
      have unlocked : phase.touches = true →
          (⟨s,[⟨call,phase⟩]⟩ : Machine).locked shard call.target = false := by
        intro touches
        cases phase <;> simp_all [Phase.touches,Phase.holds,Machine.locked]
      have first : step shard ⟨s,[⟨call,phase⟩]⟩ 0 = some ⟨t,[⟨call,phase'⟩]⟩ := by
        cases touches : phase.touches with
        | true => simp [step,made,touches,unlocked touches]
        | false => simp [step,made,touches]
      refine ⟨k + 1,?_⟩
      simp only [List.replicate_succ,exec,first,Option.bind_some,finish,made]
      exact rest

theorem perform_exec [DecidableEq σ] (shard : StateKey → σ) (s : StateStore) (call : Call) :
    ∃ k, exec (step shard) ⟨s,[⟨call,.invoked⟩]⟩ (List.replicate k 0) =
      some ⟨(perform s call).1,[⟨call,(perform s call).2⟩]⟩ :=
  finish_exec shard call 4 s .invoked

/-- Both maps agree, and no project is over the cap. -/
structure Accounted (cap : Nat) (s : StateStore) : Prop where
  capped : s.maxEntriesPerProject = some cap
  agree : ∀ p, s.count p = s.entries p
  bounded : ∀ p, s.count p ≤ cap

theorem Accounted.empty (cap : Nat) : Accounted cap (withMaxEntriesPerProject cap) :=
  ⟨rfl,fun _ => rfl,fun _ => Nat.zero_le _⟩

theorem Alone.accounted (alone : Alone cap s call t result) (before : Accounted cap s) :
    Accounted cap t := by
  cases alone with
  | overwrite writes present =>
    refine ⟨before.capped,?_,before.bounded⟩
    intro p
    rw [count_put,entries_put_present present]
    exact before.agree p
  | insert writes absent room =>
    have absent' : call.target ∉ (s.bump call.target.project).inner := absent
    refine ⟨before.capped,?_,?_⟩
    · intro p
      rw [count_put,count_bump,entries_put_absent absent',entries_bump,before.agree p]
    · intro p
      rw [count_put,count_bump]
      by_cases same : call.target.project = p
      · subst same
        simp only [if_true]
        omega
      · simpa [same] using before.bounded p
  | rejected => exact before
  | remove present =>
    refine ⟨cap_decrement.trans before.capped,?_,?_⟩
    · intro p
      have fewer := entries_take (q := p) present
      have agree := before.agree p
      rw [count_decrement,count_take,entries_decrement]
      omega
    · intro p
      have bounded := before.bounded p
      rw [count_decrement,count_take]
      omega
  | missing => exact before

theorem Alone.framed (alone : Alone cap s call t result) : Framed s call.target t := by
  cases alone with
  | overwrite => exact .put _ _ _
  | insert => exact (Framed.bump _ _).trans (.put _ _ _)
  | rejected => exact .refl _ _
  | remove => exact (Framed.take _ _).trans (.decrement _ _)
  | missing => exact .refl _ _

/-- What a call that runs alone promises: it returns, the maps agree afterwards, an error
changes nothing, only its own key and its own project's count can change, and a key that is
there already can always be written. -/
structure Promise (cap : Nat) (s : StateStore) (call : Call) (t : StateStore) : Prop where
  returns : ∃ result, (perform s call).2 = .returned result
  counted : ∀ p, t.count p = t.entries p ∧ t.count p ≤ cap
  unchanged : ∀ message, (perform s call).2 = .returned (.error message) →
    t.inner = s.inner ∧ t.projectCounts = s.projectCounts
  otherEntries : ∀ other, other ≠ call.target → t.inner.lookup other = s.inner.lookup other
  otherCounts : ∀ p, p ≠ call.target.project →
    t.projectCounts.lookup p = s.projectCounts.lookup p
  overwrites : call.writes = true → call.target ∈ s.inner →
    ∀ message, (perform s call).2 ≠ .returned (.error message)

theorem perform_promise (before : Accounted cap s) (call : Call) :
    Promise cap s call (perform s call).1 := by
  obtain ⟨result,returned,alone⟩ := perform_alone before.capped call
  have after := alone.accounted before
  have framed := alone.framed
  refine ⟨⟨result,returned⟩,fun p => ⟨after.agree p,after.bounded p⟩,?_,framed.inner,framed.counts,?_⟩
  · intro message failed
    obtain rfl : result = .error message := Phase.returned.inj (returned.symm.trans failed)
    generalize (perform s call).1 = t at alone
    cases alone
    exact ⟨rfl,rfl⟩
  · intro writes present message failed
    obtain rfl : result = .error message := Phase.returned.inj (returned.symm.trans failed)
    generalize (perform s call).1 = t at alone
    cases alone with
    | rejected absent full => exact absent present

/-- Calls one after another from an empty store keep the two maps in step. -/
theorem sequential_promise (cap : Nat) (calls : List Call) :
    Along (fun s call => some (perform s call).1) (Promise cap) (withMaxEntriesPerProject cap) calls := by
  apply along_of_invariant (Accounted.empty cap)
  intro s call t before taken
  cases taken
  obtain ⟨result,-,alone⟩ := perform_alone before.capped call
  exact ⟨alone.accounted before,perform_promise before call⟩

/-- What the phase of a call says about its key. -/
structure Placed (s : StateStore) (target : StateKey) (phase : Phase) : Prop where
  absent : phase.reserves = true → target ∉ s.inner
  present : phase.uncounted = true → target ∈ s.inner

theorem access_placed (capped : s.maxEntriesPerProject = some cap)
    (made : access s call phase = some (t,phase')) (placed : Placed s call.target phase) :
    Placed t call.target phase' := by
  cases call <;> cases phase <;> simp only [access,capped] at made
  all_goals first
    | contradiction
    | (repeat' split at made) <;> cases made <;> constructor <;>
      simp_all [Phase.reserves,Phase.uncounted,Call.target,put]
  all_goals exact placed.absent rfl

/-- The balance of the two maps moves with the phase of the call that makes the access. -/
theorem access_balance (capped : s.maxEntriesPerProject = some cap)
    (made : access s call phase = some (t,phase')) (placed : Placed s call.target phase)
    (same : SameKey s call.target phase)
    (counted : phase.ahead = true → 0 < s.count call.target.project) (p : String) :
    t.count p + (if Running.uncounted p ⟨call,phase'⟩ then 1 else 0) +
        (s.entries p + if Running.ahead p ⟨call,phase⟩ then 1 else 0) =
      s.count p + (if Running.uncounted p ⟨call,phase⟩ then 1 else 0) +
        (t.entries p + if Running.ahead p ⟨call,phase'⟩ then 1 else 0) := by
  simp only [Running.uncounted,Running.ahead]
  cases call with
  | set target value =>
    cases phase <;> simp only [access,capped,reduceCtorEq] at made
    case invoked =>
      split at made
      · rename_i present
        cases made
        simp [Phase.uncounted,Phase.ahead,entries_put_present present]
      · cases made
        simp [Phase.uncounted,Phase.ahead]
    case vacant =>
      split at made <;> cases made <;> simp [Phase.uncounted,Phase.ahead]
    case counted =>
      cases made
      simp [Phase.uncounted,Phase.ahead,count_bump,Call.target]
      omega
    case bumped =>
      cases made
      have absent : target ∉ s.inner := placed.absent rfl
      simp [Phase.uncounted,Phase.ahead,entries_put_absent absent,Call.target]
  | delete target =>
    cases phase <;> simp only [access,capped,Option.isSome_some,if_true,reduceCtorEq] at made
    case invoked =>
      split at made
      · cases made
        simp [Phase.uncounted,Phase.ahead]
      · rename_i value found
        cases made
        have present : target ∈ s.inner := AList.lookup_isSome.mp (by simp [found])
        have fewer := entries_take (q := p) present
        simp [Phase.uncounted,Phase.ahead,Call.target]
        omega
    case removed value =>
      cases made
      have positive : 0 < s.count target.project := counted rfl
      by_cases mine : target.project = p
      · subst mine
        simp [Phase.uncounted,Phase.ahead,count_decrement,Call.target]
        omega
      · simp [Phase.uncounted,Phase.ahead,count_decrement,Call.target,mine]
  | update target f =>
    cases phase <;> simp only [access,capped,Option.isSome_some,if_true,reduceCtorEq] at made
    case invoked =>
      split at made <;> cases made <;> simp [Phase.uncounted,Phase.ahead]
    case found =>
      cases made
      have present : target ∈ s.inner := same
      simp [Phase.uncounted,Phase.ahead,entries_put_present present]
    case missed =>
      split at made <;> cases made <;> simp [Phase.uncounted,Phase.ahead]
    case admitted =>
      cases made
      have absent : target ∉ s.inner := same
      simp [Phase.uncounted,Phase.ahead,entries_put_absent absent,Call.target]
      omega
    case entered next =>
      cases made
      simp [Phase.uncounted,Phase.ahead,count_bump,Call.target]

/-- A shard is taken only by an access to `inner`. -/
theorem access_holds (made : access s call phase = some (t,phase')) (holds : phase'.holds = true) :
    phase.touches = true ∨ phase.holds = true := by
  cases call <;> cases phase <;> simp only [access,reduceCtorEq] at made
  all_goals first
    | exact .inl rfl
    | exact .inr rfl
    | skip
  all_goals
    (repeat' split at made) <;> cases made <;> cases holds

theorem access_inner (made : access s call phase = some (t,phase')) (outside : phase.touches = false)
    (free : phase.holds = false) : t.inner = s.inner := by
  cases phase <;> simp only [Phase.touches,Phase.holds,Bool.true_eq_false] at outside free
  case removed =>
    cases call <;> simp only [access,reduceCtorEq] at made
    cases made
    exact inner_decrement
  case missed =>
    cases call <;> simp only [access,reduceCtorEq] at made
    (repeat' split at made) <;> cases made <;> rfl
  case returned =>
    cases call <;> simp only [access,reduceCtorEq] at made

/-- Everything a step of the machine can do. -/
theorem step_cases [DecidableEq σ] {shard : StateKey → σ} (taken : step shard m c = some n) :
    ∃ call phase t phase', m.calls[c]? = some ⟨call,phase⟩ ∧
      (phase.touches = true → m.locked shard call.target = false) ∧
      access m.store call phase = some (t,phase') ∧
      n = { store := t, calls := m.calls.set c ⟨call,phase'⟩ } := by
  simp only [step] at taken
  split at taken
  · rename_i call phase found
    split at taken
    · cases taken
    · rename_i free
      obtain ⟨⟨t,phase'⟩,made,rfl⟩ := Option.map_eq_some_iff.mp taken
      refine ⟨call,phase,t,phase',found,?_,made,rfl⟩
      intro touches
      simpa [touches] using free
  · cases taken

/-- What every interleaving of steady calls keeps: shards are held by one call each, and the
counts differ from the entries by what is still to be counted. -/
structure Invariant (shard : StateKey → σ) (cap : Nat) (m : Machine) : Prop where
  capped : m.store.maxEntriesPerProject = some cap
  exclusive : ∀ (i j : Nat) (x y : Running), m.calls[i]? = some x → m.calls[j]? = some y →
    x.phase.holds = true → y.phase.holds = true → shard x.call.target = shard y.call.target → i = j
  placed : ∀ (i : Nat) (x : Running), m.calls[i]? = some x → Placed m.store x.call.target x.phase
  balance : ∀ p, m.store.count p + m.calls.countP (Running.uncounted p) =
    m.store.entries p + m.calls.countP (Running.ahead p)

theorem start_invariant (shard : StateKey → σ) (cap : Nat) (calls : List Call) :
    Invariant shard cap (start cap calls) := by
  have fresh : ∀ (i : Nat) (x : Running), (start cap calls).calls[i]? = some x → x.phase = .invoked := by
    intro i x found
    obtain ⟨call,-,rfl⟩ := List.mem_map.mp (List.mem_of_getElem? found)
    rfl
  refine ⟨rfl,?_,?_,?_⟩
  · intro i j x y atI atJ holds
    simp [fresh i x atI,Phase.holds] at holds
  · intro i x atI
    rw [fresh i x atI]
    exact ⟨by simp [Phase.reserves],by simp [Phase.uncounted]⟩
  · intro p
    have none : ∀ (q : Running → Bool), (∀ call, q ⟨call,.invoked⟩ = false) →
        (start cap calls).calls.countP q = 0 := by
      intro q never
      rw [List.countP_eq_zero]
      intro x found
      obtain ⟨call,-,rfl⟩ := List.mem_map.mp found
      simp [never]
    rw [none _ fun _ => rfl,none _ fun _ => rfl]
    rfl

/-- Keys that wait to be counted are keys of the store, each of its own call. -/
theorem Invariant.uncounted_le (inv : Invariant shard cap m) (p : String) :
    m.calls.countP (Running.uncounted p) ≤ m.store.entries p := by
  apply countP_le_of_distinct fun r : Running => r.call.target
  · intro i j x y atI atJ hx hy same
    simp only [Running.uncounted,Bool.and_eq_true] at hx hy
    exact inv.exclusive i j x y atI atJ (Phase.holds_of_uncounted hx.1)
      (Phase.holds_of_uncounted hy.1) (by rw [same])
  · intro x found waits
    obtain ⟨i,atI⟩ := List.mem_iff_getElem?.mp found
    simp only [Running.uncounted,Bool.and_eq_true] at waits
    exact ⟨(inv.placed i x atI).present waits.1,waits.2⟩

/-- A call that reaches into `inner` is apart from every other call that holds a shard. -/
theorem Invariant.apart [DecidableEq σ] {shard : StateKey → σ} (inv : Invariant shard cap m)
    (found : m.calls[c]? = some ⟨call,phase⟩)
    (free : phase.touches = true → m.locked shard call.target = false)
    (reaches : phase.touches = true ∨ phase.holds = true) (i : Nat) (x : Running)
    (atI : m.calls[i]? = some x) (ne : c ≠ i) (holds : x.phase.holds = true) :
    shard x.call.target ≠ shard call.target := by
  intro same
  rcases reaches with touches | held
  · have unlocked := free touches
    simp only [Machine.locked,List.any_eq_false] at unlocked
    exact unlocked x (List.mem_of_getElem? atI) (by simp [holds,same])
  · exact ne (inv.exclusive c i _ x found atI held holds same.symm)

theorem Invariant.step [DecidableEq σ] {shard : StateKey → σ} (inv : Invariant shard cap m)
    (steady : Steady m c) (taken : step shard m c = some n) : Invariant shard cap n := by
  obtain ⟨call,phase,t,phase',found,free,made,rfl⟩ := step_cases taken
  have placed := inv.placed c _ found
  have framed := access_framed made
  have apart := inv.apart found free
  refine ⟨framed.cap.trans inv.capped,?_,?_,?_⟩
  · intro i j x y atI atJ holdsX holdsY same
    rcases getElem?_set_cases atI with ⟨rfl,rfl⟩ | ⟨neI,oldI⟩ <;>
      rcases getElem?_set_cases atJ with ⟨rfl,rfl⟩ | ⟨neJ,oldJ⟩
    · rfl
    · exact absurd same.symm (apart (access_holds made holdsX) j y oldJ neJ holdsY)
    · exact absurd same (apart (access_holds made holdsY) i x oldI neI holdsX)
    · exact inv.exclusive i j x y oldI oldJ holdsX holdsY same
  · intro i x atI
    rcases getElem?_set_cases atI with ⟨rfl,rfl⟩ | ⟨ne,old⟩
    · exact access_placed inv.capped made placed
    · have untouched : x.phase.holds = true → (x.call.target ∈ t.inner ↔ x.call.target ∈ m.store.inner) := by
        intro holds
        by_cases reaches : phase.touches = true ∨ phase.holds = true
        · apply framed.mem
          intro same
          exact apart reaches i x old ne holds (by rw [same])
        · simp only [not_or,Bool.not_eq_true] at reaches
          rw [access_inner made reaches.1 reaches.2]
      have before := inv.placed i x old
      constructor
      · intro reserves
        rw [untouched (Phase.holds_of_reserves reserves)]
        exact before.absent reserves
      · intro waits
        rw [untouched (Phase.holds_of_uncounted waits)]
        exact before.present waits
  · intro p
    have same : SameKey m.store call.target phase := steady _ found
    have counted : phase.ahead = true → 0 < m.store.count call.target.project := by
      intro ahead
      have waiting := inv.uncounted_le call.target.project
      have balance := inv.balance call.target.project
      have positive : 0 < m.calls.countP (Running.ahead call.target.project) :=
        List.countP_pos_iff.mpr ⟨_,List.mem_of_getElem? found,by simp [Running.ahead,ahead]⟩
      omega
    have moved := access_balance inv.capped made placed same counted p
    have uncounted := countP_set_row found ⟨call,phase'⟩ (Running.uncounted p)
    have ahead := countP_set_row found ⟨call,phase'⟩ (Running.ahead p)
    have balance := inv.balance p
    dsimp only
    omega

theorem Invariant.counted (inv : Invariant shard cap m) (quiescent : m.Quiescent) (p : String) :
    m.store.projectEntryCount p = m.store.entries p := by
  have balance := inv.balance p
  have uncounted : m.calls.countP (Running.uncounted p) = 0 := by
    rw [List.countP_eq_zero]
    intro r found
    have done := quiescent r found
    cases phase : r.phase <;> simp_all [Running.uncounted,Phase.uncounted,Phase.done]
  have ahead : m.calls.countP (Running.ahead p) = 0 := by
    rw [List.countP_eq_zero]
    intro r found
    have done := quiescent r found
    cases phase : r.phase <;> simp_all [Running.ahead,Phase.ahead,Phase.done]
  simp only [projectEntryCount,inv.capped,Option.isSome_some,if_true]
  omega

/-- In every interleaving in which each `update` finds its key at `entry` as it saw it at
`contains_key`, the counts are right once all calls have returned. -/
theorem counted_of_steady [DecidableEq σ] (shard : StateKey → σ) (cap : Nat) (calls : List Call)
    (schedule : List Nat) (steady : Along (step shard) (fun m c _ => Steady m c) (start cap calls) schedule)
    (reached : exec (step shard) (start cap calls) schedule = some m) (quiescent : m.Quiescent)
    (p : String) : m.store.projectEntryCount p = m.store.entries p := by
  have inv : Invariant shard cap m := steady.invariant (start_invariant shard cap calls)
    (fun _ _ _ inv taken steady => inv.step steady taken) reached
  exact inv.counted quiescent p

def oneKey : StateKey := ⟨"p","k"⟩

/-- Two updates of a new key both see it absent, both insert it and both count it. All keys
share one shard here, so no coarser lock helps. -/
theorem two_updates_drift :
    ∃ m, exec (step fun _ => ()) (start 10 [.update oneKey fun _ => .null,.update oneKey fun _ => .null])
        [0,1,0,1,0,0,1,1] = some m ∧ m.Quiescent ∧
      m.store.projectEntryCount "p" = 2 ∧ m.store.entries "p" = 1 := by
  exact ⟨_,rfl,by decide,rfl,rfl⟩

def mixedCalls : List Call :=
  [.set oneKey .null,.delete oneKey,.update ⟨"p","j"⟩ fun _ => .null]

/-- An update of one key runs beside a `set` and a `delete` of another. -/
theorem mixed_counted :
    ∃ m, exec (step id) (start 1 mixedCalls) [2,0,0,0,0,1,1,2,2,2] = some m ∧
      m.store.projectEntryCount "p" = m.store.entries "p" :=
  ⟨_,rfl,counted_of_steady id 1 mixedCalls [2,0,0,0,0,1,1,2,2,2] (by decide) rfl (by decide) "p"⟩

end Ruuter.StateStore
