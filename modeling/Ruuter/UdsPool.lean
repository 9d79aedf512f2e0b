import Mathlib.Data.List.Dedup
import Ruuter.Lib.Linearize
import Ruuter.Step

/-! The pool of clients for Unix sockets (`src/http_client/uds_pool.rs`): requests look their client up
and build it when there is none, in two accesses that interleave. -/
namespace Ruuter.Uds
open Transition Linearize

inductive UdsHttpVersion
  | http1 | http2
deriving DecidableEq

/-- What `Path::components` yields on Unix. -/
inductive Component
  | rootDir | curDir | parentDir
  | normal (name : String)
deriving DecidableEq

/-- `Path::components`, by which paths are compared: separators in a row count once, and a `.` counts only
where a relative path begins with it. -/
def components (path : String) : List Component :=
  let parts := path.toList.splitOn '/'
  let first : List Component :=
    if path.toList.head? = some '/' then [.rootDir]
    else if parts.head? = some ['.'] then [.curDir]
    else []
  first ++ (parts.filter fun part => part ≠ [] ∧ part ≠ ['.']).map fun part =>
    if part = ['.','.'] then .parentDir else .normal (String.ofList part)

/-- An `Arc<Client>`: clones share the number. The client holds the connector of one path. -/
structure PooledClient where
  number : Nat
  path : String
  poolIdleTimeoutMs : Nat
  poolMaxIdlePerHost : Nat
  http2Only : Bool
deriving DecidableEq

/-- `UdsPool`, and how many clients it has built so far. The keys are paths, compared by their components. -/
structure UdsPool where
  inner : AList (fun _ : List Component => PooledClient) := ∅
  idleTimeoutMs : Nat := 30000
  maxIdlePerHost : Nat := 32
  httpVersion : UdsHttpVersion := .http1
  built : Nat := 0

namespace UdsPool

def withVersion (idleTimeoutMs maxIdlePerHost : Nat) (httpVersion : UdsHttpVersion) : UdsPool :=
  { idleTimeoutMs, maxIdlePerHost, httpVersion }

def len (pool : UdsPool) : Nat := pool.inner.keys.length

/-- What the closure of `or_insert_with` builds. -/
def build (pool : UdsPool) (path : String) : PooledClient where
  number := pool.built
  path := path
  poolIdleTimeoutMs := pool.idleTimeoutMs
  poolMaxIdlePerHost := pool.maxIdlePerHost
  http2Only := pool.httpVersion = .http2

/-- `entry(key).or_insert_with(..)`. -/
def orInsert (pool : UdsPool) (path : String) : UdsPool × PooledClient :=
  match pool.inner.lookup (components path) with
  | some existing => (pool,existing)
  | none =>
    let client := pool.build path
    ({ pool with inner := pool.inner.insert (components path) client, built := pool.built + 1 },client)

end UdsPool

/-- Where a call of `client_for` stands. -/
inductive Phase
  | invoked
  | missed
  | returned (client : PooledClient)

def Phase.answer : Phase → Option PooledClient
  | .returned client => some client
  | _ => none

structure Call where
  path : String
  phase : Phase := .invoked

structure Machine where
  pool : UdsPool
  calls : List Call

/-- One access of `client_for`. -/
def access (pool : UdsPool) (path : String) : Phase → Option (UdsPool × Phase)
  | .invoked =>
    match pool.inner.lookup (components path) with
    | some existing => some (pool,.returned existing)
    | none => some (pool,.missed)
  | .missed =>
    let (pool,client) := pool.orInsert path
    some (pool,.returned client)
  | .returned _ => none

/-- Call number `c` makes its next access. -/
def step (m : Machine) (c : Nat) : Option Machine :=
  match m.calls[c]? with
  | none => none
  | some call =>
    (access m.pool call.path call.phase).map fun after =>
      { pool := after.1, calls := m.calls.set c { call with phase := after.2 } }

def invoke (pool : UdsPool) (paths : List String) : Machine :=
  { pool, calls := paths.map fun path => { path } }

def Machine.answer (m : Machine) (c : Nat) : Option PooledClient := (m.calls[c]?).bind (·.phase.answer)

def Machine.paths (m : Machine) : List String := m.calls.map (·.path)

/-- Call number `c`, run alone. -/
def performed (paths : List String) (c : Nat) (pool : UdsPool) : UdsPool × PooledClient :=
  pool.orInsert (paths.getD c "")

variable {pool next : UdsPool} {path : String} {key other : List Component} {phase phase' : Phase}
  {m n : Machine} {paths : List String}
  {client : PooledClient}

theorem orInsert_known (known : pool.inner.lookup (components path) = some client) :
    pool.orInsert path = (pool,client) := by
  simp [UdsPool.orInsert,known]

/-- A call takes effect where it finds its client, or where it enters one. -/
theorem access_effect (made : access pool path phase = some (next,phase')) :
    phase.answer = none ∧
      (next = pool ∧ phase'.answer = none ∨
        next = (pool.orInsert path).1 ∧ phase'.answer = some (pool.orInsert path).2) := by
  cases phase <;> simp only [access] at made
  case invoked =>
    refine ⟨rfl,?_⟩
    split at made <;> cases made
    · rename_i client known
      rw [orInsert_known known]
      exact .inr ⟨rfl,rfl⟩
    · exact .inl ⟨rfl,rfl⟩
  case missed =>
    cases made
    exact ⟨rfl,.inr ⟨rfl,rfl⟩⟩
  case returned => cases made

theorem step_atomic (same : m.paths = paths) (taken : step m c = some n) :
    n.paths = paths ∧ Atomic Machine.pool Machine.answer (performed paths) m n := by
  simp only [step] at taken
  split at taken
  · cases taken
  · rename_i call found
    obtain ⟨⟨pool,phase'⟩,made,rfl⟩ := Option.map_eq_some_iff.mp taken
    obtain ⟨below,at_c⟩ := List.getElem?_eq_some_iff.mp found
    have here : paths.getD c "" = call.path := by simp [← same,Machine.paths,found]
    have after : Machine.answer { pool, calls := m.calls.set c { call with phase := phase' } } c = phase'.answer := by
      simp [Machine.answer,below]
    have others : ∀ d, d ≠ c →
        Machine.answer { pool, calls := m.calls.set c { call with phase := phase' } } d = m.answer d := by
      intro d ne
      simp [Machine.answer,List.getElem?_set_ne (Ne.symm ne)]
    refine ⟨?_,?_⟩
    · have inside : c < m.paths.length := by simpa [Machine.paths] using below
      have mine : m.paths[c] = call.path := by simp [Machine.paths,at_c]
      change (m.calls.set c { call with phase := phase' }).map (·.path) = paths
      rw [List.map_set]
      change m.paths.set c call.path = paths
      rw [← mine,List.set_getElem_self,same]
    · obtain ⟨pending,effect⟩ := access_effect made
      have before : m.answer c = none := by simp [Machine.answer,found,pending]
      rcases effect with ⟨rfl,silent⟩ | ⟨rfl,answer⟩
      · refine .silent rfl ?_
        intro d
        by_cases eq : d = c
        · rw [eq,after,before,silent]
        · exact others d eq
      · refine .effect c before ?_ ?_ others
        · rw [performed,here]
        · rw [after,performed,here]
          exact answer

/-- What a pool that starts empty keeps: it has built the clients it holds and no others, and each is
for the path it stands under, with the settings of the pool. -/
structure Sound (pool : UdsPool) : Prop where
  built : pool.built = pool.len
  clients : ∀ key client, pool.inner.lookup key = some client → client.number < pool.built ∧
    components client.path = key ∧ client = { pool.build client.path with number := client.number }
  apart : ∀ key other client, pool.inner.lookup key = some client → ∀ twin, pool.inner.lookup other = some twin →
    twin.number = client.number → other = key

theorem orInsert_eq (missing : pool.inner.lookup (components path) = none) : pool.orInsert path =
    ({ pool with inner := pool.inner.insert (components path) (pool.build path), built := pool.built + 1 },
      pool.build path) := by
  simp [UdsPool.orInsert,missing]

theorem lookup_insert_cases {inner : AList fun _ : List Component => PooledClient}
    (found : (inner.insert key client).lookup other = some twin) :
    other = key ∧ twin = client ∨ other ≠ key ∧ inner.lookup other = some twin := by
  by_cases same : other = key
  · subst same
    rw [AList.lookup_insert] at found
    exact .inl ⟨rfl,(Option.some.inj found).symm⟩
  · rw [AList.lookup_insert_ne same] at found
    exact .inr ⟨same,found⟩

theorem Sound.orInsert (sound : Sound pool) (path : String) : Sound (pool.orInsert path).1 := by
  cases known : pool.inner.lookup (components path) with
  | some client =>
    rw [orInsert_known known]
    exact sound
  | none =>
    rw [orInsert_eq known]
    refine ⟨?_,?_,?_⟩
    · have fresh : components path ∉ pool.inner := AList.lookup_eq_none.mp known
      simp only [UdsPool.len,AList.keys,AList.entries_insert_of_notMem fresh,List.keys_cons,List.length_cons,
        sound.built]
    · intro other client found
      rcases lookup_insert_cases found with ⟨rfl,rfl⟩ | ⟨-,old⟩
      · exact ⟨Nat.lt_succ_self _,rfl,rfl⟩
      · obtain ⟨below,under,same⟩ := sound.clients other client old
        exact ⟨Nat.lt_succ_of_lt below,under,same⟩
    · intro p q client found twin seen same
      rcases lookup_insert_cases found with ⟨rfl,rfl⟩ | ⟨-,old⟩ <;>
        rcases lookup_insert_cases seen with ⟨rfl,rfl⟩ | ⟨-,older⟩
      · rfl
      · have below := (sound.clients q twin older).1
        rw [same] at below
        exact absurd below (Nat.lt_irrefl _)
      · have below := (sound.clients p client old).1
        rw [← same] at below
        exact absurd below (Nat.lt_irrefl _)
      · exact sound.apart p q client old twin older same

/-- A client that is found stays. -/
theorem orInsert_keeps (found : pool.inner.lookup other = some client) (path : String) :
    (pool.orInsert path).1.inner.lookup other = some client := by
  cases known : pool.inner.lookup (components path) with
  | some existing =>
    rw [orInsert_known known]
    exact found
  | none =>
    have ne : other ≠ components path := by
      rintro rfl
      rw [known] at found
      cases found
    rw [orInsert_eq known]
    exact (AList.lookup_insert_ne ne).trans found

theorem lookup_orInsert (pool : UdsPool) (path : String) :
    (pool.orInsert path).1.inner.lookup (components path) = some (pool.orInsert path).2 := by
  cases known : pool.inner.lookup (components path) with
  | some existing =>
    rw [orInsert_known known]
    exact known
  | none =>
    rw [orInsert_eq known]
    exact AList.lookup_insert pool.inner

theorem mem_orInsert : other ∈ (pool.orInsert path).1.inner ↔ other = components path ∨ other ∈ pool.inner := by
  cases known : pool.inner.lookup (components path) with
  | some existing =>
    have present : components path ∈ pool.inner := AList.lookup_isSome.mp (by simp [known])
    rw [orInsert_known known]
    refine ⟨.inr,?_⟩
    rintro (rfl | found)
    · exact present
    · exact found
  | none =>
    rw [orInsert_eq known]
    exact AList.mem_insert pool.inner

section Sequential

theorem after_keeps (paths : List String) (order : List Nat) (found : pool.inner.lookup other = some client) :
    (after (performed paths) pool order).inner.lookup other = some client := by
  induction order generalizing pool with
  | nil => exact found
  | cons c rest ih => exact ih (orInsert_keeps found _)

theorem after_sound (paths : List String) (order : List Nat) (sound : Sound pool) :
    Sound (after (performed paths) pool order) := by
  induction order generalizing pool with
  | nil => exact sound
  | cons c rest ih => exact ih (sound.orInsert _)

theorem mem_after (paths : List String) (order : List Nat) :
    other ∈ (after (performed paths) pool order).inner ↔
      (∃ c ∈ order, components (paths.getD c "") = other) ∨ other ∈ pool.inner := by
  induction order generalizing pool with
  | nil => simp
  | cons c rest ih =>
    rw [after_cons,ih,performed,mem_orInsert,List.exists_mem_cons_iff]
    constructor
    · rintro (later | rfl | old)
      · exact .inl (.inr later)
      · exact .inl (.inl rfl)
      · exact .inr old
    · rintro ((rfl | later) | old)
      · exact .inr (.inl rfl)
      · exact .inl later
      · exact .inr (.inr old)

end Sequential

@[simp] theorem answer_invoke (pool : UdsPool) (paths : List String) (c : Nat) :
    (invoke pool paths).answer c = none := by
  simp only [Machine.answer,invoke,List.getElem?_map]
  cases paths[c]? <;> rfl

@[simp] theorem paths_invoke (pool : UdsPool) (paths : List String) : (invoke pool paths).paths = paths := by
  simp [Machine.paths,invoke,Function.comp_def]

theorem sound_withVersion (idleTimeoutMs maxIdlePerHost : Nat) (version : UdsHttpVersion) :
    Sound (.withVersion idleTimeoutMs maxIdlePerHost version) where
  built := rfl
  clients _ _ found := by cases found
  apart _ _ _ found := by cases found

/-- In every interleaving of calls on a new pool, calls for one path get one client and calls for
different paths get different ones, each with the settings of the pool; a client is built for the paths
that have been answered and for no others, and none is built twice. Paths of the same components are one
path. -/
theorem clients_shared (idleTimeoutMs maxIdlePerHost : Nat) (version : UdsHttpVersion) (paths : List String)
    (schedule : List Nat)
    (ran : exec step (invoke (.withVersion idleTimeoutMs maxIdlePerHost version) paths) schedule = some m) :
    (∀ c client, m.answer c = some client → components client.path = components (paths.getD c "") ∧
      client = { m.pool.build client.path with number := client.number }) ∧
    (∀ c d client twin, m.answer c = some client → m.answer d = some twin →
      (client.number = twin.number ↔ components (paths.getD c "") = components (paths.getD d ""))) ∧
    (∀ key, key ∈ m.pool.inner ↔ ∃ c, (m.answer c).isSome = true ∧ components (paths.getD c "") = key) ∧
    m.pool.built = m.pool.len := by
  obtain ⟨order,explains,-⟩ := traced_of_atomic Machine.pool Machine.answer (performed paths)
    (I := fun m => m.paths = paths) (paths_invoke _ paths) (answer_invoke _ paths) (fun _ _ _ => step_atomic) ran
  have sound : Sound m.pool := by
    rw [explains.value]
    exact after_sound paths order (sound_withVersion idleTimeoutMs maxIdlePerHost version)
  have held : ∀ c client, m.answer c = some client →
      m.pool.inner.lookup (components (paths.getD c "")) = some client := by
    intro c client answer
    have taken : c ∈ order := (explains.members c).mpr (by simp [answer])
    obtain ⟨earlier,later,rfl⟩ := List.append_of_mem taken
    have given := explains.answers earlier c later rfl
    rw [answer,Option.some.injEq] at given
    rw [explains.value,after_append,after_cons,given]
    exact after_keeps paths later (lookup_orInsert _ _)
  refine ⟨?_,?_,?_,sound.built⟩
  · intro c client answer
    exact (sound.clients _ _ (held c client answer)).2
  · intro c d client twin first second
    constructor
    · intro same
      exact sound.apart _ _ _ (held d twin second) _ (held c client first) same
    · intro same
      have one := held c client first
      rw [same,held d twin second] at one
      cases one
      rfl
  · intro key
    rw [explains.value,mem_after]
    constructor
    · rintro (⟨c,taken,path⟩ | old)
      · exact ⟨c,(explains.members c).mp taken,path⟩
      · exact absurd old (AList.notMem_empty key)
    · rintro ⟨c,answered,path⟩
      exact .inl ⟨c,(explains.members c).mpr answered,path⟩

/-- Two calls for one path, written in two ways, both miss; the second one finds what the first has
entered. -/
theorem clients_shared_racing :
    ∃ m, exec step (invoke {} ["/run//a.sock","/run/./a.sock","/run/b.sock"]) [0,1,2,1,0,2] = some m ∧
      m.pool.built = m.pool.len ∧ m.pool.len = 2 :=
  ⟨_,rfl,(clients_shared 30000 32 .http1 ["/run//a.sock","/run/./a.sock","/run/b.sock"] [0,1,2,1,0,2] rfl).2.2.2,
    by decide +kernel⟩

end Ruuter.Uds
