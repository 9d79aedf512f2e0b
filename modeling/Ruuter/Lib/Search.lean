import Mathlib.Data.List.Infix

/-! Searching a list in a concatenation: a separator that the pattern does not hold cuts the search,
a part without the pattern's first element is passed over, and an escaped text is searched like the
text itself when the pattern holds nothing that is escaped. -/
namespace Search

variable {α β : Type} {p x y u v : List α} {a c : α}

theorem prefix_append_cons (absent : c ∉ p) : p <+: x ++ c :: y ↔ p <+: x := by
  induction x generalizing p with
  | nil =>
    cases p with
    | nil => simp
    | cons d p =>
      have apart : d ≠ c := fun same => absent (same ▸ List.mem_cons_self)
      simp [apart]
  | cons d x ih =>
    cases p with
    | nil => simp
    | cons e p =>
      rw [List.cons_append,List.cons_prefix_cons,List.cons_prefix_cons,
        ih fun inside => absent (List.mem_cons_of_mem _ inside)]

theorem infix_append_cons (absent : c ∉ p) : p <:+: x ++ c :: y ↔ p <:+: x ∨ p <:+: y := by
  induction x with
  | nil =>
    have start := prefix_append_cons absent (x := []) (y := y)
    rw [List.nil_append] at start ⊢
    rw [List.infix_cons_iff,start,List.prefix_nil,List.infix_nil]
  | cons d x ih =>
    rw [List.cons_append,List.infix_cons_iff,ih,List.infix_cons_iff,← List.cons_append,
      prefix_append_cons absent,or_assoc]

/-- A part without the first element of the pattern. -/
theorem infix_skip (absent : a ∉ x) : a :: p <:+: x ++ y ↔ a :: p <:+: y := by
  induction x with
  | nil => rfl
  | cons d x ih =>
    rw [List.mem_cons,not_or] at absent
    rw [List.cons_append,List.infix_cons_iff,List.cons_prefix_cons,ih absent.2]
    exact or_iff_right fun start => absent.1 start.1

/-- A way to write a text between quotes: most elements stand for themselves, the others are written
behind a mark. -/
structure Escaping (β α : Type) where
  write : β → List α
  plain : β → α
  escapes : β → Bool
  mark : α
  quote : α
  apart : mark ≠ quote
  kept : ∀ b, escapes b = false → write b = [plain b] ∧ plain b ≠ quote
  marked : ∀ b, escapes b = true → ∃ tail, write b = mark :: tail

namespace Escaping

variable (e : Escaping β α)

/-- A pattern that holds nothing that is escaped. -/
structure Avoids (p : List α) : Prop where
  mark : e.mark ∉ p
  plain : ∀ b, e.escapes b = true → e.plain b ∉ p

/-- An element that no escape sequence holds. -/
def Starts (a : α) : Prop := ∀ b, e.escapes b = true → a ∉ e.write b

variable {e}

theorem Avoids.tail (avoids : e.Avoids (a :: p)) : e.Avoids p :=
  ⟨fun inside => avoids.mark (List.mem_cons_of_mem _ inside),
    fun b escaped inside => avoids.plain b escaped (List.mem_cons_of_mem _ inside)⟩

theorem prefix_iff {text : List β} (avoids : e.Avoids p) : p <+: text.flatMap e.write ↔ p <+: text.map e.plain := by
  induction text generalizing p with
  | nil => rfl
  | cons b text ih =>
    cases p with
    | nil => simp
    | cons d p =>
      rw [List.flatMap_cons,List.map_cons,List.cons_prefix_cons]
      cases escaped : e.escapes b with
      | false => rw [(e.kept b escaped).1,List.singleton_append,List.cons_prefix_cons,ih avoids.tail]
      | true =>
        obtain ⟨tail,written⟩ := e.marked b escaped
        rw [written,List.cons_append,List.cons_prefix_cons]
        refine iff_of_false ?_ ?_
        · rintro ⟨rfl,_⟩
          exact avoids.mark List.mem_cons_self
        · rintro ⟨rfl,_⟩
          exact avoids.plain b escaped List.mem_cons_self

/-- The search of an escaped text. -/
theorem infix_iff {text : List β} (avoids : e.Avoids (a :: p)) (starts : e.Starts a) :
    a :: p <:+: text.flatMap e.write ↔ a :: p <:+: text.map e.plain := by
  induction text with
  | nil => rfl
  | cons b text ih =>
    rw [List.flatMap_cons,List.map_cons,List.infix_cons_iff,← ih]
    cases escaped : e.escapes b with
    | false =>
      have whole : a :: p <+: (b :: text).flatMap e.write ↔ a :: p <+: (b :: text).map e.plain := prefix_iff avoids
      rw [List.flatMap_cons,(e.kept b escaped).1,List.singleton_append,List.map_cons] at whole
      rw [(e.kept b escaped).1,List.singleton_append,List.infix_cons_iff,whole]
    | true =>
      rw [infix_skip (starts b escaped),List.cons_prefix_cons]
      refine (or_iff_right ?_).symm
      rintro ⟨rfl,_⟩
      exact avoids.plain b escaped List.mem_cons_self

/-- A quote of the pattern meets no quote of the text but the last. -/
theorem quoted_start {text : List β} (mark : e.mark ∉ u) (quote : e.quote ∉ u)
    (start : u ++ e.quote :: v <+: text.flatMap e.write ++ e.quote :: y) : v <+: y := by
  induction text generalizing u with
  | nil =>
    cases u with
    | nil => exact (List.cons_prefix_cons.mp start).2
    | cons d u => exact absurd (List.cons_prefix_cons.mp start).1 fun same => quote (same ▸ List.mem_cons_self)
  | cons b text ih =>
    rw [List.flatMap_cons] at start
    cases escaped : e.escapes b with
    | false =>
      rw [(e.kept b escaped).1] at start
      cases u with
      | nil => exact absurd (List.cons_prefix_cons.mp start).1 (e.kept b escaped).2.symm
      | cons d u =>
        exact ih (fun inside => mark (List.mem_cons_of_mem _ inside)) (fun inside => quote (List.mem_cons_of_mem _ inside))
          (List.cons_prefix_cons.mp start).2
    | true =>
      obtain ⟨tail,written⟩ := e.marked b escaped
      rw [written] at start
      cases u with
      | nil => exact absurd (List.cons_prefix_cons.mp start).1 e.apart.symm
      | cons d u => exact absurd (List.cons_prefix_cons.mp start).1 fun same => mark (same ▸ List.mem_cons_self)

/-- A pattern with a quote is not found in a quoted text, when what follows is not its rest. -/
theorem quoted_infix {text : List β} (mark : e.mark ∉ a :: u) (quote : e.quote ∉ a :: u) (starts : e.Starts a)
    (closed : ¬ v <+: y) : a :: u ++ e.quote :: v <:+: text.flatMap e.write ++ e.quote :: y ↔
      a :: u ++ e.quote :: v <:+: y := by
  induction text with
  | nil =>
    have passed : a ∉ [e.quote] := fun inside => quote (List.mem_singleton.mp inside ▸ List.mem_cons_self)
    exact infix_skip passed
  | cons b text ih =>
    cases escaped : e.escapes b with
    | false =>
      have start (inside : a :: u ++ e.quote :: v <+: (b :: text).flatMap e.write ++ e.quote :: y) : False :=
        closed (quoted_start mark quote inside)
      rw [List.flatMap_cons,(e.kept b escaped).1] at start ⊢
      exact List.infix_cons_iff.trans ((or_iff_right start).trans ih)
    | true =>
      rw [List.flatMap_cons,List.append_assoc]
      exact (infix_skip (starts b escaped)).trans ih

end Escaping
end Search
