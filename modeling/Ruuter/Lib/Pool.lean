import Ruuter.Lib.Table
import Ruuter.Lib.Transition

/-! Tasks that run under a semaphore and are joined one after the other, in whatever order they
finish, by a collector that may stop before all of them are in. -/
namespace Pool
open Transition Table

/-- Where a task stands. -/
inductive Phase
  | waiting | running | finished | joined | aborted
deriving DecidableEq

structure State (σ : Type) where
  phases : List Phase
  available : Nat
  joins : List Nat := []
  collector : σ
  closed : Bool := false

inductive Action
  | acquire (i : Nat)
  | finish (i : Nat)
  | join (i : Nat)
  | close
  | abort (i : Nat)

section Steps
variable {σ : Type} (examine : Nat → σ → σ) (wants : σ → Bool) (cancels : Bool)

/-- The tasks before their first step. -/
def start (count permits : Nat) (collector : σ) : State σ where
  phases := List.replicate count .waiting
  available := permits
  collector

/-- One step. The collector joins finished tasks as long as it wants more, and closes when it does not
or when all tasks are joined; what is left then goes on, or is aborted. -/
def step (s : State σ) : Action → Option (State σ)
  | .acquire i =>
    if s.phases[i]? = some .waiting ∧ 0 < s.available then
      some { s with phases := s.phases.set i .running, available := s.available - 1 }
    else none
  | .finish i =>
    if s.phases[i]? = some .running then
      some { s with phases := s.phases.set i .finished, available := s.available + 1 }
    else none
  | .join i =>
    if s.closed = false ∧ wants s.collector = true ∧ s.phases[i]? = some .finished then
      some { s with
        phases := s.phases.set i .joined
        joins := s.joins ++ [i]
        collector := examine i s.collector }
    else none
  | .close =>
    if s.closed = false ∧ (wants s.collector = false ∨ ∀ phase ∈ s.phases, phase = .joined) then
      some { s with closed := true }
    else none
  | .abort i =>
    if s.closed = true ∧ cancels = true then
      match s.phases[i]? with
      | some .waiting => some { s with phases := s.phases.set i .aborted }
      | some .running => some { s with phases := s.phases.set i .aborted, available := s.available + 1 }
      | _ => none
    else none

/-- The tasks that hold a permit. -/
def State.running (s : State σ) : Nat := s.phases.countP (· = .running)

/-- What holds in every state of a run. -/
structure Invariant (count permits : Nat) (collector : σ) (s : State σ) : Prop where
  size : s.phases.length = count
  balance : s.available + s.running = permits
  nodup : s.joins.Nodup
  joined : ∀ i, i ∈ s.joins ↔ s.phases[i]? = some .joined
  folded : s.collector = s.joins.foldl (fun c i => examine i c) collector
  wanted : ∀ before i after, s.joins = before ++ i :: after →
    wants (before.foldl (fun c i => examine i c) collector) = true
  complete : s.closed = true → wants s.collector = false ∨ ∀ i < count, i ∈ s.joins

variable {examine wants cancels} {count permits : Nat} {collector : σ} {s t : State σ}

theorem start_invariant (count permits : Nat) (collector : σ) :
    Invariant examine wants count permits collector (start count permits collector) where
  size := List.length_replicate
  balance := by simp [start,State.running]
  nodup := List.nodup_nil
  joined i := by simp [start,List.getElem?_replicate]
  folded := rfl
  wanted before i after split := by simp [start] at split
  complete closed := by cases closed

/-- A task that moves between phases other than `joined` leaves the joins as they are. -/
theorem Invariant.move (inv : Invariant examine wants count permits collector s) {i : Nat} {old new : Phase}
    (found : s.phases[i]? = some old) (before : old ≠ .joined) (after : new ≠ .joined) {available : Nat}
    (balance : available + (if new = .running then 1 else 0) = s.available + (if old = .running then 1 else 0)) :
    Invariant examine wants count permits collector { s with phases := s.phases.set i new, available } where
  size := by simpa using inv.size
  balance := by
    have moved := countP_set_row found new fun phase => decide (phase = .running)
    have total := inv.balance
    unfold State.running at total ⊢
    simp only [decide_eq_true_eq] at moved
    simp only
    omega
  nodup := inv.nodup
  joined j := by
    rw [inv.joined,List.getElem?_set]
    split
    · rename_i same
      subst same
      obtain ⟨below,here⟩ := List.getElem?_eq_some_iff.mp found
      simp [below,here,before,after]
    · rfl
  folded := inv.folded
  wanted := inv.wanted
  complete := inv.complete

theorem Invariant.join (inv : Invariant examine wants count permits collector s) (wanting : wants s.collector = true)
    (openState : s.closed = false) (found : s.phases[i]? = some .finished) :
    Invariant examine wants count permits collector
      { s with
        phases := s.phases.set i .joined
        joins := s.joins ++ [i]
        collector := examine i s.collector } where
  size := by simpa using inv.size
  balance := by
    have moved := countP_set_row found .joined fun phase => decide (phase = .running)
    have total := inv.balance
    unfold State.running at total ⊢
    simp only [reduceCtorEq,decide_false,Bool.false_eq_true,if_false,Nat.add_zero] at moved
    simp only
    omega
  nodup := by
    have fresh : i ∉ s.joins := by
      rw [inv.joined,found]
      simp
    rw [List.nodup_append]
    exact ⟨inv.nodup,by simp,fun a member b single same => fresh (by simp_all)⟩
  joined j := by
    have below := (List.getElem?_eq_some_iff.mp found).1
    rw [List.mem_append,inv.joined,List.getElem?_set]
    by_cases same : i = j
    · subst same
      simp [below]
    · simp [same,Ne.symm same]
  folded := by rw [List.foldl_append,inv.folded]; rfl
  wanted before j after split := by
    rcases List.eq_nil_or_concat after with rfl | ⟨front,last,rfl⟩
    · obtain ⟨rfl,_⟩ := List.append_inj' split rfl
      rw [← inv.folded]
      exact wanting
    · have same : s.joins ++ [i] = (before ++ j :: front) ++ [last] := by simpa using split
      exact inv.wanted before j front (List.append_inj' same rfl).1
  complete closed := by cases openState.symm.trans closed

/-- Every step keeps the invariant. -/
theorem Invariant.step (inv : Invariant examine wants count permits collector s) (a : Action)
    (taken : step examine wants cancels s a = some t) : Invariant examine wants count permits collector t := by
  cases a with
  | acquire i =>
    simp only [Pool.step] at taken
    split at taken
    case isFalse => cases taken
    case isTrue given =>
      cases taken
      exact inv.move given.1 (by decide) (by decide) (by simp; omega)
  | finish i =>
    simp only [Pool.step] at taken
    split at taken
    case isFalse => cases taken
    case isTrue given =>
      cases taken
      exact inv.move given (by decide) (by decide) (by simp)
  | join i =>
    simp only [Pool.step] at taken
    split at taken
    case isFalse => cases taken
    case isTrue given =>
      cases taken
      exact inv.join given.2.1 given.1 given.2.2
  | close =>
    simp only [Pool.step] at taken
    split at taken
    case isFalse => cases taken
    case isTrue given =>
      cases taken
      refine { inv with complete := fun _ => given.2.imp_right fun all i below => ?_ }
      have there : i < s.phases.length := inv.size ▸ below
      rw [inv.joined,List.getElem?_eq_getElem there,all _ (List.getElem_mem there)]
  | abort i =>
    simp only [Pool.step] at taken
    split at taken
    case isFalse => cases taken
    case isTrue =>
      split at taken
      · rename_i found
        cases taken
        exact inv.move found (by decide) (by decide) (by simp)
      · rename_i found
        cases taken
        exact inv.move found (by decide) (by decide) (by simp)
      · cases taken

/-- The invariant holds in every state that a run reaches. -/
theorem invariant_of_exec {actions : List Action}
    (reached : exec (step examine wants cancels) (start count permits collector) actions = some s) :
    Invariant examine wants count permits collector s := by
  refine exec_history (I := fun _ s => Invariant examine wants count permits collector s)
    (start_invariant count permits collector) ?_ reached
  exact fun _ t a u inv taken => inv.step a taken

theorem Invariant.lt_of_joined (inv : Invariant examine wants count permits collector s) {i : Nat}
    (member : i ∈ s.joins) :
    i < count :=
  inv.size ▸ (List.getElem?_eq_some_iff.mp ((inv.joined i).mp member)).1

/-- A collector that closes while it wants more has joined every task. -/
theorem Invariant.perm_range (inv : Invariant examine wants count permits collector s) (closed : s.closed = true)
    (wanting : wants s.collector = true) : s.joins.Perm (List.range count) := by
  refine (List.perm_ext_iff_of_nodup inv.nodup List.nodup_range).mpr fun i => ?_
  rw [List.mem_range]
  constructor
  · exact inv.lt_of_joined
  · intro below
    rcases inv.complete closed with full | all
    · rw [wanting] at full
      cases full
    · exact all i below

theorem running_le {actions : List Action}
    (reached : exec (step examine wants cancels) (start count permits collector) actions = some s) :
    s.running ≤ permits :=
  (invariant_of_exec reached).balance ▸ Nat.le_add_left _ _

end Steps

section Judgement
variable {τ : Type} (judge : Nat → τ → Bool × τ)

/-- The tasks that a judge with a state counts, with the state it ends in. -/
def counted : List Nat → τ → List Nat × τ
  | [],t => ([],t)
  | i :: rest,t =>
    let (counts,u) := judge i t
    let (later,v) := counted rest u
    (if counts then i :: later else later,v)

/-- A task is examined behind others, and is counted. -/
def CountedAt (joins : List Nat) (t : τ) (i : Nat) (u : τ) : Prop :=
  ∃ before after, joins = before ++ i :: after ∧ u = (counted judge before t).2 ∧ (judge i u).1 = true

variable {judge}

theorem counted_append (front back : List Nat) (t : τ) :
    counted judge (front ++ back) t =
      ((counted judge front t).1 ++ (counted judge back (counted judge front t).2).1,
        (counted judge back (counted judge front t).2).2) := by
  induction front generalizing t with
  | nil => rfl
  | cons i rest ih =>
    simp only [List.cons_append,counted,ih]
    split <;> rfl

theorem counted_sublist (joins : List Nat) (t : τ) : (counted judge joins t).1.Sublist joins := by
  induction joins generalizing t with
  | nil => exact List.Sublist.slnil
  | cons i rest ih =>
    simp only [counted]
    split
    · exact (ih _).cons_cons i
    · exact (ih _).cons i

/-- The counted tasks are those that were counted when their turn came. -/
theorem mem_counted {joins : List Nat} {t : τ} : i ∈ (counted judge joins t).1 ↔ ∃ u, CountedAt judge joins t i u := by
  induction joins generalizing t with
  | nil => simp [counted,CountedAt]
  | cons j rest ih =>
    constructor
    · intro member
      simp only [counted] at member
      have later (inside : i ∈ (counted judge rest (judge j t).2).1) : ∃ u, CountedAt judge (j :: rest) t i u := by
        obtain ⟨u,before,after,split,same,counts⟩ := ih.mp inside
        refine ⟨u,j :: before,after,by rw [split]; rfl,?_,counts⟩
        rw [same]
        rfl
      split at member
      · rename_i counts
        rcases List.mem_cons.mp member with rfl | inside
        · exact ⟨t,[],rest,rfl,rfl,counts⟩
        · exact later inside
      · exact later member
    · rintro ⟨u,before,after,split,same,counts⟩
      simp only [counted]
      cases before with
      | nil =>
        cases split
        have here : (judge i t).1 = true := by rw [same] at counts; exact counts
        simp [here]
      | cons head before =>
        cases split
        have inside : i ∈ (counted judge (before ++ i :: after) (judge j t).2).1 :=
          ih.mpr ⟨u,before,after,rfl,same,counts⟩
        split
        · exact List.mem_cons_of_mem _ inside
        · exact inside

/-- A judge without state counts what it keeps. -/
theorem counted_of_free {kept : Nat → Bool} (free : ∀ i t, judge i t = (kept i,t)) (joins : List Nat) (t : τ) :
    counted judge joins t = (joins.filter kept,t) := by
  induction joins generalizing t with
  | nil => rfl
  | cons i rest ih =>
    rw [counted,free]
    dsimp only
    rw [ih,List.filter_cons]

/-- The collector of a judge: it keeps an entry for each task that is counted. -/
def collecting (judge : Nat → τ → Bool × τ) (entry : Nat → β) (i : Nat) (c : List β × τ) : List β × τ :=
  let (counts,t) := judge i c.2
  (if counts then c.1 ++ [entry i] else c.1,t)

theorem foldl_collecting {entry : Nat → β} (joins : List Nat) (out : List β) (t : τ) :
    joins.foldl (fun c i => collecting judge entry i c) (out,t) =
      (out ++ (counted judge joins t).1.map entry,(counted judge joins t).2) := by
  induction joins generalizing out t with
  | nil => simp [counted]
  | cons i rest ih =>
    rw [List.foldl_cons,collecting,ih,counted]
    dsimp only
    split <;> simp

variable {entry : Nat → β} {wants : List β × τ → Bool} {count permits quota : Nat} {t : τ} {s : State (List β × τ)}

theorem Invariant.collector_eq (inv : Invariant (collecting judge entry) wants count permits ([],t) s) :
    s.collector = ((counted judge s.joins t).1.map entry,(counted judge s.joins t).2) := by
  rw [inv.folded,foldl_collecting,List.nil_append]

/-- A collector that wants entries below a quota keeps no more than the quota. -/
theorem Invariant.counted_le (inv : Invariant (collecting judge entry) wants count permits ([],t) s)
    (below : ∀ c, wants c = true → c.1.length < quota) : (counted judge s.joins t).1.length ≤ quota := by
  rcases List.eq_nil_or_concat s.joins with none | ⟨front,last,split⟩
  · rw [none]
    exact Nat.zero_le quota
  · have wanting := below _ (inv.wanted front last [] (by simpa using split))
    rw [foldl_collecting,List.nil_append,List.length_map] at wanting
    rw [split,List.concat_eq_append,counted_append,List.length_append]
    have one : (counted judge [last] (counted judge front t).2).1.length ≤ 1 :=
      (counted_sublist [last] _).length_le
    omega

end Judgement
end Pool
