import Mathlib.Data.List.Induction

/-! Runs of a partial step function. A schedule is a list of actions; a predicate on
transitions holds along a schedule when every transition the schedule takes satisfies it. -/
namespace Transition

variable {step : σ → α → Option σ} {P Q : σ → α → σ → Prop}

/-- The state after a whole schedule, or `none` when some action is not enabled. -/
def exec (step : σ → α → Option σ) : σ → List α → Option σ
  | s, [] => some s
  | s, a :: rest => (step s a).bind fun t => exec step t rest

/-- Every transition taken along the schedule satisfies `P` (before, action, after). -/
def Along (step : σ → α → Option σ) (P : σ → α → σ → Prop) : σ → List α → Prop
  | _, [] => True
  | s, a :: rest => ∀ t, step s a = some t → P s a t ∧ Along step P t rest

@[simp] theorem exec_nil : exec step s [] = some s := rfl

theorem exec_cons_eq_some :
    exec step s (a :: rest) = some u ↔ ∃ t, step s a = some t ∧ exec step t rest = some u := by
  simp [exec,Option.bind_eq_some_iff]

theorem exec_append (s : σ) (before after : List α) :
    exec step s (before ++ after) = (exec step s before).bind fun t => exec step t after := by
  induction before generalizing s with
  | nil => rfl
  | cons a rest ih =>
    simp only [List.cons_append,exec]
    cases step s a with
    | none => rfl
    | some t => exact ih t

instance Along.decidable [∀ t a u, Decidable (P t a u)] :
    (s : σ) → (actions : List α) → Decidable (Along step P s actions)
  | _, [] => .isTrue trivial
  | s, a :: rest =>
    match taken : step s a with
    | none => .isTrue fun t eq => by simp [taken] at eq
    | some u =>
      have := Along.decidable u rest
      decidable_of_iff (P s a u ∧ Along step P u rest) <| by simp [Along,taken]

theorem Along.and (left : Along step P s actions) (right : Along step Q s actions) :
    Along step (fun t a u => P t a u ∧ Q t a u) s actions := by
  induction actions generalizing s with
  | nil => trivial
  | cons a rest ih =>
    intro t first
    exact ⟨⟨(left t first).1,(right t first).1⟩,ih (left t first).2 (right t first).2⟩

/-- The transition at any position of a schedule satisfies what holds along it. -/
theorem Along.transition (before : List α) (a : α) (after : List α)
    (along : Along step P s (before ++ a :: after)) (reached : exec step s before = some t)
    (taken : step t a = some u) : P t a u := by
  induction before generalizing s with
  | nil =>
    cases reached
    exact (along u taken).1
  | cons b rest ih =>
    obtain ⟨m,first,later⟩ := exec_cons_eq_some.mp reached
    exact ih (along m first).2 later

/-- What every good transition preserves holds in the final state of a good schedule. -/
theorem Along.invariant {I : σ → Prop} (along : Along step P s actions) (initial : I s)
    (kept : ∀ t a u, I t → step t a = some u → P t a u → I u)
    (reached : exec step s actions = some u) : I u := by
  induction actions generalizing s with
  | nil =>
    cases reached
    exact initial
  | cons a rest ih =>
    obtain ⟨t,first,later⟩ := exec_cons_eq_some.mp reached
    have good := along t first
    exact ih good.2 (kept s a t initial first good.1) later

/-- Replace the predicate along a schedule, using an invariant that it keeps. -/
theorem Along.transfer {I : σ → Prop} (along : Along step P s actions) (initial : I s)
    (kept : ∀ t a u, I t → step t a = some u → P t a u → I u)
    (weaker : ∀ t a u, I t → step t a = some u → P t a u → Q t a u) : Along step Q s actions := by
  induction actions generalizing s with
  | nil => trivial
  | cons a rest ih =>
    intro t first
    have good := along t first
    exact ⟨weaker s a t initial first good.1,ih good.2 (kept s a t initial first good.1)⟩

/-- What every transition from an invariant's states satisfies holds along every schedule. -/
theorem along_of_invariant {I : σ → Prop} (initial : I s)
    (kept : ∀ t a u, I t → step t a = some u → I u ∧ Q t a u) (actions : List α) :
    Along step Q s actions := by
  induction actions generalizing s with
  | nil => trivial
  | cons a rest ih =>
    intro t first
    obtain ⟨next,good⟩ := kept s a t initial first
    exact ⟨good,ih next⟩

/-- What relates the history of a run to its state, kept step by step. -/
theorem exec_history {I : List α → σ → Prop} (initial : I [] s)
    (kept : ∀ history t a u, I history t → step t a = some u → I (history ++ [a]) u)
    (reached : exec step s actions = some u) : I actions u := by
  induction actions using List.reverseRecOn generalizing u with
  | nil =>
    cases reached
    exact initial
  | append_singleton history a ih =>
    rw [exec_append,Option.bind_eq_some_iff] at reached
    obtain ⟨t,before,last⟩ := reached
    obtain ⟨v,taken,done⟩ := exec_cons_eq_some.mp last
    cases done
    exact kept history t a _ (ih before) taken

/-- A run is followed by the schedule without its hidden actions, where those leave the relation alone
and all others are followed one by one. -/
theorem exec_filter {next : τ → α → Option τ} {R : σ → τ → Prop} (visible : α → Bool)
    (follow : ∀ s t a s', R s t → step s a = some s' → visible a = true → ∃ t', next t a = some t' ∧ R s' t')
    (hidden : ∀ s t a s', R s t → step s a = some s' → visible a = false → R s' t)
    (related : R s t) (ran : exec step s actions = some u) :
    ∃ v, exec next t (actions.filter visible) = some v ∧ R u v := by
  induction actions generalizing s t with
  | nil =>
    cases ran
    exact ⟨t,rfl,related⟩
  | cons a rest ih =>
    obtain ⟨m,first,later⟩ := exec_cons_eq_some.mp ran
    cases shown : visible a with
    | false =>
      rw [List.filter_cons_of_neg (by simp [shown])]
      exact ih (hidden s t a m related first shown) later
    | true =>
      obtain ⟨n,taken,kept⟩ := follow s t a m related first shown
      obtain ⟨v,done,final⟩ := ih kept later
      rw [List.filter_cons_of_pos shown]
      exact ⟨v,exec_cons_eq_some.mpr ⟨n,taken,done⟩,final⟩

variable {x y a : α} {history : List α}

/-- An occurrence of `x` comes before the first `y`. -/
def Precedes (x y : α) : List α → Prop
  | [] => False
  | a :: rest => a ≠ y ∧ (a = x ∨ Precedes x y rest)

instance Precedes.decidable [DecidableEq α] : (history : List α) → Decidable (Precedes x y history)
  | [] => .isFalse id
  | a :: rest =>
    have := Precedes.decidable rest
    inferInstanceAs (Decidable (a ≠ y ∧ (a = x ∨ Precedes x y rest)))

/-- What comes before the first `y` is settled once `y` has occurred. -/
theorem precedes_snoc_of_mem (occurred : y ∈ history) :
    Precedes x y (history ++ [a]) ↔ Precedes x y history := by
  induction history with
  | nil => cases occurred
  | cons b rest ih =>
    by_cases same : b = y
    · simp [Precedes,same]
    · have later : y ∈ rest := by simpa [Ne.symm same] using occurred
      simp [Precedes,ih later]

theorem precedes_snoc_self (fresh : y ∉ history) : Precedes x y (history ++ [y]) ↔ x ∈ history := by
  induction history with
  | nil => simp [Precedes]
  | cons b rest ih =>
    simp only [List.mem_cons,not_or] at fresh
    simp only [List.cons_append,Precedes,ih fresh.2,List.mem_cons]
    constructor
    · rintro ⟨-,rfl | later⟩
      · exact .inl rfl
      · exact .inr later
    · rintro (rfl | later)
      · exact ⟨Ne.symm fresh.1,.inl rfl⟩
      · exact ⟨Ne.symm fresh.1,.inr later⟩

end Transition
