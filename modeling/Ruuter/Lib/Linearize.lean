import Ruuter.Lib.Transition
import Mathlib.Data.List.Infix

/-! Linearization points. Operations take several steps each and interleave; a sequential meaning says
what an operation does to an abstract value and what it answers. Where every step takes effect for at
most one pending operation, a run answers as if the operations ran one by one. -/
namespace Linearize
open Transition

variable {step : σ → α → Option σ} {abs : σ → τ} {outcome : σ → ι → Option β} {perform : ι → τ → τ × β}
  {s u m : σ} {x : τ} {order early : List ι} {i j : ι}

/-- A transition leaves the abstract value and all outcomes alone, or one pending operation takes
effect. -/
inductive Atomic (abs : σ → τ) (outcome : σ → ι → Option β) (perform : ι → τ → τ × β) (s u : σ) : Prop
  | silent (value : abs u = abs s) (outcomes : ∀ i, outcome u i = outcome s i)
  | effect (i : ι) (pending : outcome s i = none) (value : abs u = (perform i (abs s)).1)
      (answer : outcome u i = some (perform i (abs s)).2)
      (others : ∀ j, j ≠ i → outcome u j = outcome s j)

/-- The abstract value after operations that run one by one. -/
def after (perform : ι → τ → τ × β) (x : τ) (order : List ι) : τ :=
  order.foldl (fun x i => (perform i x).1) x

@[simp] theorem after_nil : after perform x [] = x := rfl

theorem after_append (x : τ) (before rest : List ι) :
    after perform x (before ++ rest) = after perform (after perform x before) rest := List.foldl_append

@[simp] theorem after_cons : after perform x (i :: order) = after perform (perform i x).1 order := rfl

@[simp] theorem after_snoc : after perform x (order ++ [i]) = (perform i (after perform x order)).1 :=
  after_append x order [i]

/-- The operations that have taken effect, in the order in which they explain the value and all
outcomes. -/
structure Explains (abs : σ → τ) (outcome : σ → ι → Option β) (perform : ι → τ → τ × β) (x : τ) (s : σ)
    (order : List ι) : Prop where
  nodup : order.Nodup
  value : abs s = after perform x order
  members : ∀ i, i ∈ order ↔ (outcome s i).isSome = true
  answers : ∀ earlier i later, order = earlier ++ i :: later →
    outcome s i = some (perform i (after perform x earlier)).2

theorem Explains.initial (fresh : ∀ i, outcome s i = none) : Explains abs outcome perform (abs s) s [] := by
  refine ⟨List.nodup_nil,rfl,?_,?_⟩
  · intro i
    simp [fresh i]
  · intro earlier i later split
    cases earlier <;> cases split

theorem Explains.silent (explains : Explains abs outcome perform x s order) (value : abs u = abs s)
    (outcomes : ∀ i, outcome u i = outcome s i) : Explains abs outcome perform x u order := by
  refine ⟨explains.nodup,value.trans explains.value,?_,?_⟩
  · intro i
    rw [outcomes i]
    exact explains.members i
  · intro earlier i later split
    rw [outcomes i]
    exact explains.answers earlier i later split

/-- An operation that takes effect comes last. -/
theorem Explains.effect (explains : Explains abs outcome perform x s order) (pending : outcome s i = none)
    (value : abs u = (perform i (abs s)).1) (answer : outcome u i = some (perform i (abs s)).2)
    (others : ∀ j, j ≠ i → outcome u j = outcome s j) :
    Explains abs outcome perform x u (order ++ [i]) := by
  have fresh : i ∉ order := by
    rw [explains.members i,pending]
    simp
  refine ⟨?_,?_,?_,?_⟩
  · refine List.nodup_append.mpr ⟨explains.nodup,List.pairwise_singleton _ i,?_⟩
    intro a known b last same
    cases List.mem_singleton.mp last
    exact fresh (same ▸ known)
  · rw [after_snoc,value,explains.value]
  · intro j
    by_cases same : j = i
    · subst same
      simp [answer]
    · rw [others j same,← explains.members j]
      simp [same]
  · intro earlier j later split
    rcases List.eq_nil_or_concat later with rfl | ⟨later,last,rfl⟩
    · obtain ⟨rfl,tail⟩ := List.append_inj' split rfl
      cases tail
      rw [answer,explains.value]
    · rw [List.concat_eq_append,← List.cons_append,← List.append_assoc] at split
      obtain ⟨before,-⟩ := List.append_inj' split rfl
      have known := explains.answers earlier j later before
      have ne : j ≠ i := by
        intro same
        rw [same,pending] at known
        cases known
      rw [others j ne,known]

theorem Explains.extends (explains : Explains abs outcome perform x s order)
    (atomic : Atomic abs outcome perform s u) :
    ∃ more, Explains abs outcome perform x u (order ++ more) := by
  cases atomic with
  | silent value outcomes =>
    refine ⟨[],?_⟩
    rw [List.append_nil]
    exact explains.silent value outcomes
  | effect i pending value answer others => exact ⟨[i],explains.effect pending value answer others⟩

/-- An order for the end of a run whose initial parts explain the states on the way. -/
def Traced (step : σ → α → Option σ) (abs : σ → τ) (outcome : σ → ι → Option β) (perform : ι → τ → τ × β)
    (s : σ) (schedule : List α) (u : σ) (order : List ι) : Prop :=
  Explains abs outcome perform (abs s) u order ∧
    ∀ before m, before <+: schedule → exec step s before = some m →
      ∃ early, early <+: order ∧ Explains abs outcome perform (abs s) m early

theorem Traced.snoc {history : List α} (traced : Traced step abs outcome perform s history m order)
    (ran : exec step s history = some m) (taken : step m a = some u)
    (atomic : Atomic abs outcome perform m u) :
    ∃ more, Traced step abs outcome perform s (history ++ [a]) u (order ++ more) := by
  obtain ⟨more,explains⟩ := traced.1.extends atomic
  refine ⟨more,explains,?_⟩
  intro before t first reached
  rcases List.prefix_concat_iff.mp first with rfl | first
  · rw [exec_append,ran] at reached
    obtain ⟨v,again,rest⟩ := exec_cons_eq_some.mp reached
    cases rest
    rw [taken] at again
    cases again
    exact ⟨_,List.prefix_refl _,explains⟩
  · obtain ⟨early,initial,known⟩ := traced.2 before t first reached
    exact ⟨early,initial.trans (List.prefix_append order more),known⟩

/-- Where every step is atomic, one order explains a whole run. -/
theorem traced_of_atomic (abs : σ → τ) (outcome : σ → ι → Option β) (perform : ι → τ → τ × β) {I : σ → Prop}
    (initial : I s) (fresh : ∀ i, outcome s i = none)
    (kept : ∀ t a u, I t → step t a = some u → I u ∧ Atomic abs outcome perform t u)
    {schedule : List α} (ran : exec step s schedule = some u) :
    ∃ order, Traced step abs outcome perform s schedule u order := by
  have history := exec_history (I := fun schedule u => exec step s schedule = some u ∧ I u ∧
    ∃ order, Traced step abs outcome perform s schedule u order) ⟨rfl,initial,[],?_⟩ ?_ ran
  · exact history.2.2
  · refine ⟨.initial fresh,?_⟩
    intro before m first reached
    cases List.prefix_nil.mp first
    cases reached
    exact ⟨[],List.prefix_refl _,.initial fresh⟩
  · intro history t a u inv taken
    obtain ⟨reached,good,order,traced⟩ := inv
    obtain ⟨next,atomic⟩ := kept t a u good taken
    obtain ⟨more,longer⟩ := traced.snoc reached taken atomic
    refine ⟨?_,next,_,longer⟩
    rw [exec_append,reached]
    exact exec_cons_eq_some.mpr ⟨u,taken,rfl⟩

/-- What has taken effect at some moment comes before what has not. -/
theorem Explains.precedes (late : Explains abs outcome perform x u order)
    (soon : Explains abs outcome perform x m early) (first : early <+: order)
    (done : (outcome m i).isSome = true) (pending : outcome m j = none) (later : j ∈ order) :
    ∃ p q r, order = p ++ i :: q ++ j :: r := by
  obtain ⟨rest,rfl⟩ := first
  obtain ⟨p,q,rfl⟩ := List.append_of_mem ((soon.members i).mpr done)
  have unseen : j ∉ p ++ i :: q := by
    rw [soon.members j,pending]
    simp
  obtain ⟨q',r,rfl⟩ := List.append_of_mem ((List.mem_append.mp later).resolve_left unseen)
  exact ⟨p,q ++ q',r,by simp⟩

end Linearize
