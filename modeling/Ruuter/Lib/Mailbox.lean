import Mathlib.Data.List.Infix

/-! Queues between tasks with one receiver. A send is refused when the queue is full or the
receiver is gone, and a receiver that is dropped drops what waits with it. -/

structure Mailbox (α : Type u) where
  bound : Option Nat := none
  queue : List α := []
  closed : Bool := false

namespace Mailbox
variable {α : Type u} {β : Type v} {m n : Mailbox α} {x : α}

inductive Refusal
  | full
  | closed
deriving DecidableEq

def isFull (m : Mailbox α) : Bool :=
  match m.bound with
  | none => false
  | some capacity => capacity ≤ m.queue.length

def trySend (m : Mailbox α) (x : α) : Except Refusal (Mailbox α) :=
  if m.closed then .error .closed
  else if m.isFull then .error .full
  else .ok { m with queue := m.queue ++ [x] }

def recv (m : Mailbox α) : Option (α × Mailbox α) :=
  match m.queue with
  | [] => none
  | x :: rest => some (x,{ m with queue := rest })

def close (m : Mailbox α) : Mailbox α := { m with queue := [], closed := true }

theorem isFull_eq_false : m.isFull = false ↔ ∀ capacity, m.bound = some capacity → m.queue.length < capacity := by
  unfold isFull
  cases m.bound with
  | none => simp
  | some capacity => simp

theorem trySend_eq_ok : m.trySend x = .ok n ↔
    m.closed = false ∧ m.isFull = false ∧ n = { m with queue := m.queue ++ [x] } := by
  unfold trySend
  cases m.closed <;> cases m.isFull <;> simp [eq_comm]

theorem recv_eq_some : m.recv = some (x,n) ↔ ∃ rest, m.queue = x :: rest ∧ n = { m with queue := rest } := by
  unfold recv
  cases m.queue with
  | nil => simp
  | cons y rest => simp [eq_comm]

theorem bound_trySend (sent : m.trySend x = .ok n) : n.bound = m.bound := by
  obtain ⟨_,_,rfl⟩ := trySend_eq_ok.mp sent
  rfl

theorem bound_recv (got : m.recv = some (x,n)) : n.bound = m.bound := by
  obtain ⟨_,_,rfl⟩ := recv_eq_some.mp got
  rfl

/-- The history of a mailbox whose receiver turns what it takes into output by `f`: the output of
what was accepted has left it, waits in it, or was lost with the receiver, in this order. -/
structure Feeds (f : α → Option β) (m : Mailbox α) (accepted : List α) (output : List β) : Prop where
  order : ∃ lost, accepted.filterMap f = output ++ m.queue.filterMap f ++ lost ∧ (m.closed = false → lost = [])
  bounded : ∀ capacity, m.bound = some capacity → m.queue.length ≤ capacity
  dropped : m.closed = true → m.queue = []

variable {f : α → Option β} {accepted : List α} {output later : List β}

theorem feeds_new (f : α → Option β) (bound : Option Nat) : Feeds f { bound } [] [] :=
  ⟨⟨[],rfl,fun _ => rfl⟩,fun _ _ => Nat.zero_le _,fun _ => rfl⟩

theorem Feeds.trySend (feeds : m.Feeds f accepted output) (sent : m.trySend x = .ok n) :
    n.Feeds f (accepted ++ [x]) output := by
  obtain ⟨live,room,rfl⟩ := trySend_eq_ok.mp sent
  obtain ⟨lost,order,none_lost⟩ := feeds.order
  constructor
  · refine ⟨[],?_,fun _ => rfl⟩
    simp only [List.filterMap_append,order,none_lost live,List.append_nil,List.append_assoc]
  · intro capacity bound
    have below := isFull_eq_false.mp room capacity bound
    rw [List.length_append,List.length_singleton]
    exact below
  · intro closed
    cases live.symm.trans closed

theorem Feeds.recv (feeds : m.Feeds f accepted output) (got : m.recv = some (x,n)) :
    n.Feeds f accepted (output ++ (f x).toList) := by
  obtain ⟨rest,queue,rfl⟩ := recv_eq_some.mp got
  obtain ⟨lost,order,none_lost⟩ := feeds.order
  constructor
  · refine ⟨lost,?_,none_lost⟩
    rw [order,queue]
    cases produced : f x <;> simp [produced]
  · intro capacity bound
    have short := feeds.bounded capacity bound
    rw [queue,List.length_cons] at short
    exact Nat.le_of_succ_le short
  · intro closed
    cases queue.symm.trans (feeds.dropped closed)

/-- A receiver that ends takes with it what it had still to put out. -/
theorem Feeds.close (feeds : m.Feeds f accepted (output ++ later)) : m.close.Feeds f accepted output := by
  obtain ⟨lost,order,_⟩ := feeds.order
  refine ⟨⟨later ++ m.queue.filterMap f ++ lost,?_,?_⟩,fun _ _ => Nat.zero_le _,fun _ => rfl⟩
  · rw [order]
    simp only [Mailbox.close,List.filterMap_nil,List.append_nil,List.append_assoc]
  · intro live
    cases live

end Mailbox
