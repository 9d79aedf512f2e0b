import Mathlib.Data.List.Infix

/-! Texts read from left to right: at each position either a token stands there, which is taken
whole, or one symbol is passed over. `Decomposes` is this reading as a judgment; a recursive
function with its equations is a fold of the pieces. -/
namespace Scan

/-- A piece of a text: a token with its key, or a symbol outside the tokens. -/
inductive Piece (α κ : Type)
  | token (key : κ) (literal : List α)
  | other (c : α)
deriving DecidableEq

namespace Piece
variable {α κ : Type}

/-- A token stands for the value of its key if there is one, else for itself. -/
def render (value : κ → Option (List α)) : Piece α κ → List α
  | token key literal => (value key).getD literal
  | other c => [c]

end Piece

/-- A language of tokens with the function that finds the one at the front of a text. -/
structure Scanner (α κ : Type) where
  Token : κ → List α → Prop
  front : List α → Option (κ × List α)
  nonempty : ∀ {key literal}, Token key literal → literal ≠ []
  front_iff : ∀ {text key rest},
    front text = some (key,rest) ↔ ∃ literal, Token key literal ∧ text = literal ++ rest

namespace Scanner
variable {α κ : Type} (scanner : Scanner α κ)

/-- The reading of a text from left to right. -/
inductive Decomposes : List α → List (Piece α κ) → Prop
  | nil : Decomposes [] []
  | token : scanner.Token key literal → Decomposes rest pieces →
      Decomposes (literal ++ rest) (.token key literal :: pieces)
  | other : (∀ key literal, scanner.Token key literal → ¬ literal <+: c :: rest) → Decomposes rest pieces →
      Decomposes (c :: rest) (.other c :: pieces)

variable {scanner}

theorem front_token (token : scanner.Token key literal) (rest : List α) :
    scanner.front (literal ++ rest) = some (key,rest) :=
  scanner.front_iff.mpr ⟨literal,token,rfl⟩

theorem front_eq_none : scanner.front text = none ↔ ∀ key literal, scanner.Token key literal → ¬ literal <+: text := by
  constructor
  · intro nothing key literal token starts
    obtain ⟨rest,rfl⟩ := starts
    rw [front_token token] at nothing
    cases nothing
  · intro nothing
    cases found : scanner.front text with
    | none => rfl
    | some pair =>
      obtain ⟨literal,token,rfl⟩ := scanner.front_iff.mp found
      exact absurd (List.prefix_append _ _) (nothing _ _ token)

theorem exists_decomposes (scanner : Scanner α κ) (text : List α) : ∃ pieces, scanner.Decomposes text pieces := by
  -- By the length of the text, since a token takes several symbols at once.
  induction size : text.length using Nat.strong_induction_on generalizing text with
  | _ n ih =>
    cases text with
    | nil => exact ⟨[],.nil⟩
    | cons c rest =>
      cases found : scanner.front (c :: rest) with
      | none =>
        obtain ⟨pieces,given⟩ := ih rest.length (by rw [← size]; exact Nat.lt_succ_self _) rest rfl
        exact ⟨_,.other (front_eq_none.mp found) given⟩
      | some pair =>
        obtain ⟨literal,token,same⟩ := scanner.front_iff.mp found
        have shorter : pair.2.length < n := by
          have positive := List.length_pos_iff.mpr (scanner.nonempty token)
          rw [← size,same,List.length_append]
          omega
        obtain ⟨pieces,given⟩ := ih pair.2.length shorter pair.2 rfl
        exact ⟨.token pair.1 literal :: pieces,same ▸ .token token given⟩

/-- What stands before the rest of a text. -/
theorem take_token {text literal rest : List α} (same : text = literal ++ rest) :
    text.take (text.length - rest.length) = literal := by
  rw [same,List.length_append,Nat.add_sub_cancel,List.take_left]

/-- The pieces of a text. The bound is its length. -/
def scan (scanner : Scanner α κ) : Nat → List α → List (Piece α κ)
  | 0, _ | _, [] => []
  | n + 1, c :: text =>
    match scanner.front (c :: text) with
    | none => .other c :: scan scanner n text
    | some (key,rest) => .token key ((c :: text).take (text.length + 1 - rest.length)) :: scan scanner n rest

theorem scan_nil (n : Nat) : scanner.scan n [] = [] := by cases n <;> rfl

theorem scan_passed (n : Nat) (c : α) (rest : List α) (none : scanner.front (c :: rest) = none) :
    scanner.scan (n + 1) (c :: rest) = .other c :: scanner.scan n rest := by
  rw [scan,none]

theorem scan_taken (n : Nat) (c : α) (text : List α) (key : κ) (literal rest : List α)
    (same : c :: text = literal ++ rest) (found : scanner.front (c :: text) = some (key,rest)) :
    scanner.scan (n + 1) (c :: text) = .token key literal :: scanner.scan n rest := by
  have written := take_token same
  rw [List.length_cons] at written
  rw [scan,found]
  simp only [written]

namespace Decomposes

/-- A function that scans by recursion is a fold of the pieces. Its first argument bounds the recursion. -/
theorem run_eq_foldr {run : Nat → List α → β} {f : Piece α κ → β → β} {b : β} (done : ∀ n, run n [] = b)
    (passed : ∀ n c rest, scanner.front (c :: rest) = none → run (n + 1) (c :: rest) = f (.other c) (run n rest))
    (taken : ∀ n c text key literal rest, c :: text = literal ++ rest →
      scanner.front (c :: text) = some (key,rest) → run (n + 1) (c :: text) = f (.token key literal) (run n rest))
    (given : scanner.Decomposes text pieces) (bound : text.length ≤ n) : run n text = pieces.foldr f b := by
  induction given generalizing n with
  | nil => exact done n
  | @token key literal rest pieces token _ ih =>
    obtain ⟨c,later,rfl⟩ := List.exists_cons_of_ne_nil (scanner.nonempty token)
    rw [List.length_append,List.length_cons] at bound
    obtain ⟨n,rfl⟩ := Nat.exists_eq_succ_of_ne_zero (show n ≠ 0 by omega)
    rw [List.foldr_cons,← ih (show rest.length ≤ n by omega)]
    exact taken n c (later ++ rest) key (c :: later) rest rfl (front_token token rest)
  | @other c rest pieces none _ ih =>
    rw [List.length_cons] at bound
    obtain ⟨n,rfl⟩ := Nat.exists_eq_succ_of_ne_zero (show n ≠ 0 by omega)
    rw [List.foldr_cons,← ih (show rest.length ≤ n by omega)]
    exact passed n c rest (front_eq_none.mpr none)

/-- A text is read in one way. -/
theorem unique (first : scanner.Decomposes text pieces) (second : scanner.Decomposes text others) :
    pieces = others := by
  have read : ∀ {pieces}, scanner.Decomposes text pieces → scanner.scan text.length text = pieces := by
    intro pieces given
    rw [run_eq_foldr (f := List.cons) (b := []) scan_nil scan_passed scan_taken given (Nat.le_refl _),
      List.foldr_cons_nil]
  rw [← read first,read second]

end Decomposes
end Scanner
end Scan
