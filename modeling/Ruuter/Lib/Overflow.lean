import Mathlib.Algebra.Group.Nat.Defs

/-! Integers of fixed width in a build with overflow checks, which panics, and in any other, which
wraps, and a natural number in a counter of 32 bits. -/
namespace Overflow

/-- An operation on integers of fixed width: where the result does not fit, a build with overflow checks
panics and any other wraps. -/
def arith (checks fits : Bool) (wrapped : α) : Option α := if checks && !fits then none else some wrapped

theorem arith_fits {checks holds : Bool} (fits : checks = true → holds = true) (wrapped : α) :
    arith checks holds wrapped = some wrapped := by
  cases checks with
  | false => rfl
  | true => simp [arith,fits rfl]

theorem eq_of_arith {checks fits : Bool} {wrapped value : α} (some : arith checks fits wrapped = .some value) :
    value = wrapped := by
  unfold arith at some
  split at some
  · cases some
  · exact (Option.some.inj some).symm

section Counter
variable {n : Nat}

theorem ofNat_succ (n : Nat) : Int32.ofNat n + 1 = Int32.ofNat (n + 1) := (Int32.ofNat_add n 1).symm

theorem ofNat_pred (positive : 0 < n) : Int32.ofNat n - 1 = Int32.ofNat (n - 1) :=
  (Int32.ofNat_sub n 1 positive).symm

/-- A counter is back at zero behind `2 ^ 32` steps. -/
theorem ofNat_eq_zero : Int32.ofNat n = 0 ↔ n % 2 ^ 32 = 0 := by
  rw [← Int32.toInt_inj,Int32.toInt_ofNat',Int32.toInt_zero,← Int.dvd_iff_bmod_eq_zero,
    ← Nat.dvd_iff_mod_eq_zero]
  exact Int.natCast_dvd_natCast

end Counter
end Overflow
