import Mathlib.Algebra.Order.Ring.Defs
import Mathlib.Algebra.Order.GroupWithZero.Basic
import Mathlib.Data.List.Forall2

/-! Exponential backoff: delays that grow by a factor up to a cap, and loops that go back to their
first delay after some of their outcomes. -/
namespace Backoff

section Delays
variable {R : Type} [Semiring R] [LinearOrder R] {factor initial cap : R}

/-- The delay behind `k` others. -/
def delay (factor initial cap : R) (k : Nat) : R := min (initial * factor ^ k) cap

theorem delay_zero (small : initial ≤ cap) : delay factor initial cap 0 = initial := by
  rw [delay,pow_zero,mul_one]
  exact min_eq_left small

theorem delay_le (factor initial cap : R) (k : Nat) : delay factor initial cap k ≤ cap := min_le_right _ _

variable [IsOrderedRing R]

/-- The cap can be applied after every step. -/
theorem delay_succ (grows : 1 ≤ factor) (nonneg : 0 ≤ cap) (k : Nat) :
    delay factor initial cap (k + 1) = min (delay factor initial cap k * factor) cap := by
  have absorbed : cap ≤ cap * factor := le_mul_of_one_le_right nonneg grows
  rw [delay,delay,min_mul_of_nonneg _ _ (zero_le_one.trans grows),min_assoc,min_eq_right absorbed,pow_succ,mul_assoc]

theorem le_delay (grows : 1 ≤ factor) (nonneg : 0 ≤ initial) (k : Nat) :
    min initial cap ≤ delay factor initial cap k := by
  apply min_le_min_right
  exact le_mul_of_one_le_right nonneg (one_le_pow₀ grows)

end Delays

section Loop
variable {α β : Type} (resets : α → Bool) (initial : β) (next : β → Option β)

/-- How many delays were used before that of each outcome, since the start or the last reset. -/
def used : Nat → List α → List Nat
  | _, [] => []
  | k, a :: rest => (if resets a then 0 else k) :: used ((if resets a then 0 else k) + 1) rest

/-- The delay behind each outcome. The loop ends when there is no next delay. -/
def waits : β → List α → List β
  | _, [] => []
  | b, a :: rest =>
    (if resets a then initial else b) :: (next (if resets a then initial else b)).elim [] (waits · rest)

variable {resets} {initial} {next}

/-- `P` holds of the first delay, and a delay it holds of is right for its use and followed by another. -/
theorem waits_used {P Q : Nat → β → Prop} (again : P 0 initial) (start : P k b)
    (step : ∀ j ∈ used resets k outcomes, ∀ d, P j d → Q j d ∧ ∃ d', next d = some d' ∧ P (j + 1) d') :
    List.Forall₂ Q (used resets k outcomes) (waits resets initial next b outcomes) := by
  induction outcomes generalizing k b with
  | nil => exact .nil
  | cons a rest ih =>
    have here : P (if resets a then 0 else k) (if resets a then initial else b) := by
      split
      · exact again
      · exact start
    obtain ⟨right,d,found,later⟩ := step _ List.mem_cons_self _ here
    rw [used,waits,found]
    apply List.Forall₂.cons right
    exact ih later fun j member => step j (List.mem_cons_of_mem _ member)

theorem used_of_never (never : ∀ a ∈ outcomes, resets a = false) :
    used resets k outcomes = List.range' k outcomes.length := by
  induction outcomes generalizing k with
  | nil => rfl
  | cons a rest ih =>
    have kept := never a List.mem_cons_self
    rw [used,kept,List.length_cons,List.range'_succ]
    exact congrArg (k :: ·) (ih fun b member => never b (List.mem_cons_of_mem _ member))

/-- Without resets the delays are counted from the start. -/
theorem of_forall₂_used {Q : Nat → β → Prop} {ds : List β} (all : List.Forall₂ Q (used (fun _ => false) 0 outcomes) ds)
    (slept : ds[i]? = some d) : Q i d := by
  rw [used_of_never fun _ _ => rfl] at all
  obtain ⟨same,each⟩ := List.forall₂_iff_get.mp all
  obtain ⟨inside,rfl⟩ := List.getElem?_eq_some_iff.mp slept
  have here := each i (same ▸ inside) inside
  simpa using here

end Loop

end Backoff
