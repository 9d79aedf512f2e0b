import Ruuter.Lib.Effect

/-! One computation from two states. `Lockstep R m`: from states related by `R` the computation
comes to the same result, or the same error, and to states related by `R`. An invariant is the
case where the two states are one. -/
namespace Eff

variable {σ ε α β : Type} {m : Eff σ ε α} {f : α → Eff σ ε β} {R : σ → σ → Prop}

def Lockstep (R : σ → σ → Prop) (m : Eff σ ε α) : Prop :=
  ∀ s t, R s t → (m s).1 = (m t).1 ∧ R (m s).2 (m t).2

theorem Lockstep.keeps {I : σ → Prop} (same : Lockstep (fun s t => s = t ∧ I s) m) : Keeps I m :=
  fun s holds => (same s s ⟨rfl,holds⟩).2.2

theorem lockstep_pure (a : α) : Lockstep R (pure a : Eff σ ε α) := fun _ _ related => ⟨rfl,related⟩

theorem lockstep_throw (e : ε) : Lockstep R (throw e : Eff σ ε α) := fun _ _ related => ⟨rfl,related⟩

theorem lockstep_modify {change : σ → σ} (kept : ∀ s t, R s t → R (change s) (change t)) :
    Lockstep R (modify change : Eff σ ε Unit) :=
  fun s t related => ⟨rfl,kept s t related⟩

theorem lockstep_bind (first : Lockstep R m) (later : ∀ a, Lockstep R (f a)) : Lockstep R (m >>= f) := by
  intro s t related
  obtain ⟨same,kept⟩ := first s t related
  rcases left : m s with ⟨_ | a,u⟩
  · rcases right : m t with ⟨_ | b,v⟩
    · rw [bind_eq_error left,bind_eq_error right]
      rw [left,right] at same kept
      cases same
      exact ⟨rfl,kept⟩
    · rw [left,right] at same
      cases same
  · rcases right : m t with ⟨_ | b,v⟩
    · rw [left,right] at same
      cases same
    · rw [bind_eq_ok left,bind_eq_ok right]
      rw [left,right] at same kept
      cases same
      exact later a u v kept

theorem lockstep_map (first : Lockstep R m) (g : α → β) : Lockstep R (g <$> m) :=
  lockstep_bind first fun a => lockstep_pure (g a)

/-- The rest reads of the state only what related states have in common. -/
theorem lockstep_get {f : σ → Eff σ ε β} (same : ∀ s t, R s t → f s = f t) (later : ∀ s, Lockstep R (f s)) :
    Lockstep R (get >>= f) := by
  intro s t related
  rw [bind_eq_ok (get_eq s),bind_eq_ok (get_eq t),same s t related]
  exact later t s t related

theorem lockstep_attempt (kept : Lockstep R m) : Lockstep R (attempt m) := by
  intro s t related
  obtain ⟨same,after⟩ := kept s t related
  exact ⟨congrArg Except.ok same,after⟩

theorem mapError_result : (mapError label m s).1 = (m s).1.mapError label := by
  unfold mapError
  rcases m s with ⟨_ | a,t⟩ <;> rfl

theorem lockstep_mapError (kept : Lockstep R m) : Lockstep R (mapError label m) := by
  intro s t related
  obtain ⟨same,after⟩ := kept s t related
  rw [mapError_state,mapError_state,mapError_result,mapError_result,same]
  exact ⟨rfl,after⟩

theorem lockstep_bracket {J : σ → σ → σ → σ → Prop} (entered : ∀ s t, R s t → J s t (enter s) (enter t))
    (kept : ∀ s t, R s t → Lockstep (J s t) m)
    (left : ∀ s t u v, R s t → J s t u v → R (leave s u) (leave t v)) :
    Lockstep R (bracket enter leave m) := by
  intro s t related
  obtain ⟨same,after⟩ := kept s t related _ _ (entered s t related)
  exact ⟨same,left s t _ _ related after⟩

theorem lockstep_firstM {body : α → Eff σ ε (Option β)} (kept : ∀ a ∈ items, Lockstep R (body a)) :
    Lockstep R (firstM body items) := by
  induction items with
  | nil => exact lockstep_pure none
  | cons a rest ih =>
    refine lockstep_bind (kept a (by simp)) fun found => ?_
    cases found with
    | none => exact ih fun b member => kept b (by simp [member])
    | some b => exact lockstep_pure (some b)

theorem lockstep_collect {body : α → Eff σ ε β} (kept : ∀ a ∈ items, Lockstep R (body a)) :
    Lockstep R (collect body items) := by
  induction items with
  | nil => exact lockstep_pure []
  | cons a rest ih =>
    refine lockstep_bind (kept a (by simp)) fun b => ?_
    exact lockstep_bind (ih fun c member => kept c (by simp [member])) fun later => lockstep_pure _

end Eff
