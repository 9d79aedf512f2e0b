import Ruuter.Lib.Effect

/-! Pre- and postconditions of computations that may fail. A postcondition speaks about a result and
the state left with it, an error condition about an error and the state left with that. -/
namespace Eff

variable {σ ε α β : Type} {m : Eff σ ε α} {f : α → Eff σ ε β} {P P' : σ → Prop} {Q Q' : α → σ → Prop}
  {R : β → σ → Prop} {E E' : ε → σ → Prop}

def Triple (P : σ → Prop) (m : Eff σ ε α) (Q : α → σ → Prop) (E : ε → σ → Prop) : Prop :=
  ∀ s, P s → (∀ a t, m s = (.ok a,t) → Q a t) ∧ ∀ e t, m s = (.error e,t) → E e t

theorem triple_pure {a : α} (holds : ∀ s, P s → Q a s) : Triple P (pure a) Q E := by
  intro s given
  constructor
  · rintro _ _ ⟨⟩
    exact holds s given
  · rintro _ _ ⟨⟩

theorem triple_throw {e : ε} (holds : ∀ s, P s → E e s) : Triple P (throw e) Q E := by
  intro s given
  constructor
  · rintro _ _ ⟨⟩
  · rintro _ _ ⟨⟩
    exact holds s given

theorem triple_modify {change : σ → σ} {Q : Unit → σ → Prop} (holds : ∀ s, P s → Q () (change s)) :
    Triple P (modify change) Q E := by
  intro s given
  constructor
  · rintro _ _ ⟨⟩
    exact holds s given
  · rintro _ _ ⟨⟩

/-- The weakest precondition, and that it is one. -/
def wp (m : Eff σ ε α) (Q : α → σ → Prop) (E : ε → σ → Prop) (s : σ) : Prop :=
  (∀ a t, m s = (.ok a,t) → Q a t) ∧ ∀ e t, m s = (.error e,t) → E e t

theorem triple_iff_wp : Triple P m Q E ↔ ∀ s, P s → wp m Q E s := Iff.rfl

theorem wp_bind (m : Eff σ ε α) (f : α → Eff σ ε β) (R : β → σ → Prop) (E : ε → σ → Prop) :
    wp (m >>= f) R E = wp m (fun a => wp (f a) R E) E := by
  funext s
  apply propext
  cases first : m s with
  | mk outcome t =>
    cases outcome with
    | ok a =>
      have here : (m >>= f) s = f a t := bind_eq_ok first
      simp [wp,here,first]
    | error e =>
      have here : (m >>= f) s = (.error e,t) := bind_eq_error first
      simp [wp,here,first]

theorem triple_bind (first : Triple P m Q E) (later : ∀ a, Triple (Q a) (f a) R E) : Triple P (m >>= f) R E := by
  rw [triple_iff_wp,wp_bind]
  intro s given
  obtain ⟨ok,error⟩ := first s given
  exact ⟨fun a t eq => later a t (ok a t eq),error⟩

theorem Triple.mono (triple : Triple P m Q E) (pre : ∀ s, P' s → P s) (post : ∀ a s, Q a s → Q' a s)
    (errors : ∀ e s, E e s → E' e s) : Triple P' m Q' E' := by
  intro s given
  obtain ⟨ok,error⟩ := triple s (pre s given)
  exact ⟨fun a t eq => post a t (ok a t eq),fun e t eq => errors e t (error e t eq)⟩

theorem Triple.and (left : Triple P m Q E) (right : Triple P' m Q' E') :
    Triple (fun s => P s ∧ P' s) m (fun a s => Q a s ∧ Q' a s) (fun e s => E e s ∧ E' e s) := by
  intro s given
  obtain ⟨ok,error⟩ := left s given.1
  obtain ⟨ok',error'⟩ := right s given.2
  exact ⟨fun a t eq => ⟨ok a t eq,ok' a t eq⟩,fun e t eq => ⟨error e t eq,error' e t eq⟩⟩

/-- The strongest condition: the outcome is one of a run from a state of the precondition. -/
theorem triple_run : Triple P m (fun a t => ∃ s, P s ∧ m s = (.ok a,t)) fun e t => ∃ s, P s ∧ m s = (.error e,t) :=
  fun s given => ⟨fun _ _ eq => ⟨s,given,eq⟩,fun _ _ eq => ⟨s,given,eq⟩⟩

theorem triple_trivial : Triple P m (fun _ _ => True) fun _ _ => True :=
  fun _ _ => ⟨fun _ _ _ => trivial,fun _ _ _ => trivial⟩

theorem triple_map (triple : Triple P m Q E) {g : α → β} (post : ∀ a s, Q a s → R (g a) s) :
    Triple P (g <$> m) R E :=
  triple_bind triple fun a => triple_pure (post a)

/-- A search by an invariant over what has been tried. -/
theorem triple_firstM {body : α → Eff σ ε (Option β)} {items : List α} {I : List α → σ → Prop}
    {S : Option β → σ → Prop}
    (each : ∀ tried a rest, items = tried ++ a :: rest →
      Triple (I tried) (body a) (fun r s => r.elim (I (tried ++ [a]) s) fun b => S (some b) s) E)
    (none_found : ∀ s, I items s → S none s) : Triple (I []) (firstM body items) S E := by
  have from' : ∀ rest tried, items = tried ++ rest → Triple (I tried) (firstM body rest) S E := by
    intro rest
    induction rest with
    | nil =>
      intro tried split
      rw [List.append_nil] at split
      subst split
      exact triple_pure none_found
    | cons a rest ih =>
      intro tried split
      refine triple_bind (each tried a rest split) ?_
      intro r
      cases r with
      | some b => exact triple_pure fun _ found => found
      | none => exact ih (tried ++ [a]) (by simp [split])
  exact from' items [] rfl

end Eff
