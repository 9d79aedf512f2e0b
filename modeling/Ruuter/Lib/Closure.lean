import Mathlib.Data.List.Basic
import Mathlib.Logic.Relation

/-! Depth-first search with a list of what was visited. What a visit adds is closed under the
successors, as long as the depth suffices for what is still to be visited. -/
namespace Closure

variable {α : Type} {next : α → List α} {before between after out : List α}

/-- Nothing is lost, and of everything that is new the successors are there. -/
structure Extends (next : α → List α) (before after : List α) : Prop where
  kept : before ⊆ after
  closed : ∀ a ∈ after, a ∈ before ∨ next a ⊆ after

theorem extends_refl (next : α → List α) (out : List α) : Extends next out out where
  kept := List.Subset.refl out
  closed _ member := .inl member

theorem Extends.trans (first : Extends next before between) (later : Extends next between after) :
    Extends next before after where
  kept := List.Subset.trans first.kept later.kept
  closed a member := by
    rcases later.closed a member with old | successors
    · rcases first.closed a old with older | successors
      · exact .inl older
      · exact .inr (List.Subset.trans successors later.kept)
    · exact .inr successors

/-- A visit that has seen the successors of what it started with. -/
theorem Extends.visited (rest : Extends next (start :: before) after) (successors : next start ⊆ after) :
    Extends next before after where
  kept := List.Subset.trans (List.subset_cons_self start before) rest.kept
  closed a member := by
    rcases rest.closed a member with old | successors
    · rcases List.mem_cons.mp old with rfl | older
      · exact .inr ‹_›
      · exact .inl older
    · exact .inr successors

/-- What starts with nothing visited ends with a closed list. -/
theorem Extends.reaches (whole : Extends next [] after) (entry : start ∈ after)
    (path : Relation.ReflTransGen (fun a b => b ∈ next a) start a) : a ∈ after := by
  induction path with
  | refl => exact entry
  | tail _ edge inside =>
    rcases whole.closed _ inside with impossible | successors
    · cases impossible
    · exact successors edge

section Depth
variable [DecidableEq α]

/-- How many of the nodes are not visited. -/
def unseen (nodes out : List α) : Nat := nodes.countP (· ∉ out)

theorem unseen_mono (nodes : List α) (grows : before ⊆ after) : unseen nodes after ≤ unseen nodes before := by
  apply List.countP_mono_left
  intro a _ absent
  exact decide_eq_true fun inside => of_decide_eq_true absent (grows inside)

theorem unseen_cons {nodes : List α} (member : start ∈ nodes) (fresh : start ∉ out) :
    unseen nodes (start :: out) < unseen nodes out := by
  induction nodes with
  | nil => cases member
  | cons a rest ih =>
    have rests := unseen_mono rest (List.subset_cons_self start out)
    unfold unseen at ih rests ⊢
    rw [List.countP_cons,List.countP_cons]
    by_cases same : a = start
    · subst same
      simp only [List.mem_cons_self,fresh,not_true_eq_false,not_false_eq_true,decide_false,decide_true]
      simp only [Bool.false_eq_true,if_false,if_true]
      omega
    · have smaller := ih ((List.mem_cons.mp member).resolve_left (Ne.symm same))
      have kept : (decide (a ∉ start :: out)) = decide (a ∉ out) := by simp [same]
      rw [kept]
      omega

/-- The visits of a list of targets, one after another. -/
theorem extends_foldl {visit : α → List α → List α} {nodes : List α} {depth : Nat} (targets : List α)
    (each : ∀ t ∈ targets, ∀ out, unseen nodes out < depth → Extends next out (visit t out) ∧ t ∈ visit t out)
    (room : unseen nodes out < depth) :
    Extends next out (targets.foldl (fun out t => visit t out) out) ∧
      targets ⊆ targets.foldl (fun out t => visit t out) out := by
  induction targets generalizing out with
  | nil => exact ⟨extends_refl next out,List.nil_subset _⟩
  | cons t rest ih =>
    obtain ⟨first,seen⟩ := each t (List.mem_cons_self ..) out room
    have left := Nat.lt_of_le_of_lt (unseen_mono nodes first.kept) room
    obtain ⟨later,targets⟩ := ih (fun t member => each t (List.mem_cons_of_mem _ member)) left
    exact ⟨first.trans later,List.cons_subset.mpr ⟨later.kept seen,targets⟩⟩

/-- Depth-first search from a start, with what was visited before. -/
def visit (next : α → List α) : Nat → α → List α → List α
  | 0, _, out => out
  | depth + 1, start, out =>
    if start ∈ out then out
    else (next start).foldl (fun out t => visit next depth t out) (start :: out)

theorem visit_of_mem (visited : start ∈ out) (depth : Nat) : visit next depth start out = out := by
  cases depth with
  | zero => rfl
  | succ depth => exact if_pos visited

theorem visit_extends {nodes : List α} {depth : Nat} (inside : ∀ a ∈ nodes, next a ⊆ nodes) (member : start ∈ nodes)
    (room : unseen nodes out < depth) :
    Extends next out (visit next depth start out) ∧ start ∈ visit next depth start out := by
  induction depth generalizing start out with
  | zero => exact absurd room (Nat.not_lt_zero _)
  | succ depth ih =>
    by_cases visited : start ∈ out
    · rw [visit_of_mem visited]
      exact ⟨extends_refl next out,visited⟩
    · have left : unseen nodes (start :: out) < depth := by
        have := unseen_cons member visited
        omega
      have visits : ∀ t ∈ next start, ∀ out, unseen nodes out < depth →
          Extends next out (visit next depth t out) ∧ t ∈ visit next depth t out :=
        fun t edge out room => ih (inside start member edge) room
      obtain ⟨rest,targets⟩ := extends_foldl (next start) visits left
      rw [visit,if_neg visited]
      exact ⟨rest.visited targets,rest.kept (List.mem_cons_self ..)⟩

/-- A search that is deep enough for all nodes finds what can be reached. -/
theorem visit_reaches {nodes : List α} {depth : Nat} (inside : ∀ a ∈ nodes, next a ⊆ nodes) (member : start ∈ nodes)
    (room : nodes.length < depth) (path : Relation.ReflTransGen (fun a b => b ∈ next a) start a) :
    a ∈ visit next depth start [] := by
  have bound : unseen nodes [] < depth := Nat.lt_of_le_of_lt List.countP_le_length room
  obtain ⟨whole,entry⟩ := visit_extends inside member bound
  exact whole.reaches entry path

end Depth

end Closure
