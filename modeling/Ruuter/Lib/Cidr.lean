import Mathlib.Data.Nat.Bitwise
import Mathlib.Tactic.Ring

/-! Address blocks in the notation `base/length`. An address is a number that is written in digits
of a fixed count of bits, the highest first; a block holds the addresses that share the first
`length` bits of its base. -/
namespace Cidr

/-- The number that digits of `bits` bits write. -/
def ofDigits (bits : Nat) : List Nat → Nat
  | [] => 0
  | d :: rest => d * 2 ^ (bits * rest.length) + ofDigits bits rest

structure Block where
  base : List Nat
  length : Nat

/-- The address and the base agree in the first `length` bits. -/
def Block.Holds (block : Block) (bits : Nat) (address : List Nat) : Prop :=
  ofDigits bits address / 2 ^ (bits * address.length - block.length) =
    ofDigits bits block.base / 2 ^ (bits * address.length - block.length)

variable {bits : Nat} {address : List Nat}

theorem ofDigits_lt (small : ∀ d ∈ address, d < 2 ^ bits) : ofDigits bits address < 2 ^ (bits * address.length) := by
  induction address with
  | nil => simp [ofDigits]
  | cons d rest ih =>
    obtain ⟨first,later⟩ := List.forall_mem_cons.mp small
    have below := ih later
    have size : 2 ^ (bits * (d :: rest).length) = 2 ^ bits * 2 ^ (bits * rest.length) := by
      rw [← Nat.pow_add,List.length_cons]
      congr 1
      ring
    have room : (d + 1) * 2 ^ (bits * rest.length) ≤ 2 ^ bits * 2 ^ (bits * rest.length) :=
      Nat.mul_le_mul_right _ first
    rw [size]
    rw [Nat.succ_mul] at room
    unfold ofDigits
    omega

theorem ofDigits_append (front back : List Nat) :
    ofDigits bits (front ++ back) = ofDigits bits front * 2 ^ (bits * back.length) + ofDigits bits back := by
  induction front with
  | nil => simp [ofDigits]
  | cons d rest ih =>
    simp only [List.cons_append,ofDigits,ih,List.length_append]
    rw [Nat.mul_add,Nat.pow_add]
    ring

/-- Division drops the last digits. -/
theorem ofDigits_div {front back : List Nat} (small : ∀ d ∈ back, d < 2 ^ bits) :
    ofDigits bits (front ++ back) / 2 ^ (bits * back.length) = ofDigits bits front := by
  have positive : 0 < 2 ^ (bits * back.length) := Nat.two_pow_pos _
  rw [ofDigits_append,Nat.add_comm,Nat.add_mul_div_right _ _ positive,Nat.div_eq_of_lt (ofDigits_lt small),
    Nat.zero_add]

/-- A number that is split below its first bits. -/
theorem split_eq {high other low rest size : Nat} (below : low < size) (beyond : rest < size) :
    high * size + low = other * size + rest ↔ high = other ∧ low = rest := by
  constructor
  · intro same
    have positive : 0 < size := Nat.zero_lt_of_lt below
    have highs := congrArg (· / size) same
    simp only [Nat.add_comm _ low,Nat.add_comm _ rest,Nat.add_mul_div_right _ _ positive,
      Nat.div_eq_of_lt below,Nat.div_eq_of_lt beyond,Nat.zero_add] at highs
    subst highs
    exact ⟨rfl,Nat.add_left_cancel same⟩
  · rintro ⟨rfl,rfl⟩
    rfl

theorem ofDigits_injective : {one two : List Nat} → one.length = two.length →
    (∀ d ∈ one, d < 2 ^ bits) → (∀ d ∈ two, d < 2 ^ bits) → ofDigits bits one = ofDigits bits two → one = two
  | [], [], _, _, _, _ => rfl
  | d :: one, e :: two, size, small, tiny, same => by
    obtain ⟨_,later⟩ := List.forall_mem_cons.mp small
    obtain ⟨_,after⟩ := List.forall_mem_cons.mp tiny
    have lengths : one.length = two.length := Nat.succ.inj size
    have below : ofDigits bits one < 2 ^ (bits * two.length) := lengths ▸ ofDigits_lt later
    simp only [ofDigits,lengths] at same
    obtain ⟨rfl,tails⟩ := (split_eq below (ofDigits_lt after)).mp same
    rw [ofDigits_injective lengths later after tails]

/-- A block that ends within a digit: the digits before it are equal, and so are its first bits. -/
theorem Block.holds_iff (front lead back tail : List Nat) (x y within : Nat) (room : within ≤ bits)
    (small : ∀ d ∈ front ++ x :: back, d < 2 ^ bits) (tiny : ∀ d ∈ lead ++ y :: tail, d < 2 ^ bits)
    (sizes : front.length = lead.length) (tails : back.length = tail.length) :
    Block.Holds ⟨lead ++ y :: tail,bits * front.length + within⟩ bits (front ++ x :: back) ↔
      front = lead ∧ x / 2 ^ (bits - within) = y / 2 ^ (bits - within) := by
  have whole {first last : List Nat} {z : Nat} (sized : ∀ d ∈ first ++ z :: last, d < 2 ^ bits)
      (total : bits * (front ++ x :: back).length - (bits * front.length + within) =
        bits * last.length + (bits - within)) :
      ofDigits bits (first ++ z :: last) /
          2 ^ (bits * (front ++ x :: back).length - (bits * front.length + within)) =
        ofDigits bits first * 2 ^ within + z / 2 ^ (bits - within) := by
    have shape : first ++ z :: last = (first ++ [z]) ++ last := by simp
    have later : ∀ d ∈ last, d < 2 ^ bits := fun d member => sized d (by simp [member])
    have one : 2 ^ (bits - within) * 2 ^ within = 2 ^ bits := by
      rw [← Nat.pow_add,Nat.sub_add_cancel room]
    rw [total,Nat.pow_add,← Nat.div_div_eq_div_mul,shape,ofDigits_div later,ofDigits_append]
    simp only [ofDigits,List.length_cons,List.length_nil,Nat.zero_add,Nat.mul_one,Nat.mul_zero,Nat.pow_zero,
      Nat.add_zero]
    rw [← one,Nat.mul_comm (2 ^ (bits - within)),← Nat.mul_assoc,Nat.add_comm,
      Nat.add_mul_div_right _ _ (Nat.two_pow_pos _),Nat.add_comm]
  have fits {first last : List Nat} {z : Nat} (sized : ∀ d ∈ first ++ z :: last, d < 2 ^ bits) :
      z / 2 ^ (bits - within) < 2 ^ within := by
    apply Nat.div_lt_of_lt_mul
    rw [← Nat.pow_add,Nat.sub_add_cancel room]
    exact sized z (by simp)
  have total : bits * (front ++ x :: back).length - (bits * front.length + within) =
      bits * back.length + (bits - within) := by
    have size : bits * (front ++ x :: back).length = bits * front.length + bits * back.length + bits := by
      rw [List.length_append,List.length_cons]
      ring
    omega
  unfold Block.Holds
  rw [whole small total,whole tiny (tails ▸ total),split_eq (fits small) (fits tiny)]
  refine and_congr_left fun _ => ⟨?_,fun same => congrArg (ofDigits bits) same⟩
  exact ofDigits_injective sizes (fun d member => small d (by simp [member])) fun d member => tiny d (by simp [member])

/-- A block of one address. -/
theorem Block.holds_single (small : ∀ d ∈ address, d < 2 ^ bits) {base : List Nat}
    (tiny : ∀ d ∈ base, d < 2 ^ bits) (sizes : address.length = base.length) :
    Block.Holds ⟨base,bits * address.length⟩ bits address ↔ address = base := by
  unfold Block.Holds
  rw [Nat.sub_self,Nat.pow_zero,Nat.div_one,Nat.div_one]
  exact ⟨ofDigits_injective sizes small tiny,congrArg (ofDigits bits)⟩

/-- A mask keeps the first bits of a digit. -/
theorem and_mask {x kept : Nat} (small : x < 2 ^ bits) (room : kept ≤ bits) :
    x &&& (2 ^ bits - 2 ^ kept) = 2 ^ kept * (x / 2 ^ kept) := by
  have mask : 2 ^ bits - 2 ^ kept = 2 ^ kept * (2 ^ (bits - kept) - 1) := by
    rw [Nat.mul_sub,← Nat.pow_add,Nat.add_sub_cancel' room,Nat.mul_one]
  rw [mask]
  apply Nat.eq_of_testBit_eq
  intro i
  rw [Nat.testBit_and,Nat.testBit_two_pow_mul,Nat.testBit_two_pow_mul,Nat.testBit_two_pow_sub_one,
    Nat.testBit_div_two_pow]
  by_cases high : kept ≤ i
  · have place : i - kept + kept = i := Nat.sub_add_cancel high
    rw [place]
    by_cases inside : i < bits
    · have within : i - kept < bits - kept := by omega
      simp [high,within]
    · have beyond : x < 2 ^ i := lt_of_lt_of_le small (Nat.pow_le_pow_right (by decide) (Nat.not_lt.mp inside))
      simp [Nat.testBit_lt_two_pow beyond]
  · simp [high]

end Cidr
