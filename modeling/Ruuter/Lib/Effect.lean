import Mathlib.Algebra.GroupWithZero.Nat
import Mathlib.Tactic.Basic

/-! Computations over a state that survives errors, and rules for what they preserve
(`Keeps`), what they return (`Returns`), when two of them do the same (`Agree`) and how much they
add to a measure (`Spends`). -/

/-- A computation: a result or an error, and in both cases the state it leaves. -/
def Eff (σ ε α : Type) := σ → Except ε α × σ

namespace Eff

variable {σ ε α β : Type} {m : Eff σ ε α} {f : α → Eff σ ε β} {I : σ → Prop} {Q : α → Prop}
  {R : β → Prop}

instance : Monad (Eff σ ε) where
  pure a := fun s => (.ok a,s)
  bind m f := fun s =>
    match m s with
    | (.ok a,t) => f a t
    | (.error e,t) => (.error e,t)

def throw (e : ε) : Eff σ ε α := fun s => (.error e,s)

def get : Eff σ ε σ := fun s => (.ok s,s)

def modify (change : σ → σ) : Eff σ ε Unit := fun s => (.ok (),change s)

/-- Turn an error into a result. -/
def attempt (m : Eff σ ε α) : Eff σ ε (Except ε α) := fun s =>
  match m s with
  | (result,t) => (.ok result,t)

/-- Relabel the error of a failed computation. -/
def mapError (label : ε → ε) (m : Eff σ ε α) : Eff σ ε α := fun s =>
  match m s with
  | (.ok a,t) => (.ok a,t)
  | (.error e,t) => (.error (label e),t)

/-- Run inside a changed state and rebuild the outer state from both, on every outcome. -/
def bracket (enter : σ → σ) (leave : σ → σ → σ) (m : Eff σ ε α) : Eff σ ε α := fun s =>
  match m (enter s) with
  | (result,t) => (result,leave s t)

/-- Run over a list until the body gives a result. -/
def firstM (body : α → Eff σ ε (Option β)) : List α → Eff σ ε (Option β)
  | [] => pure none
  | a :: rest => do
    match ← body a with
    | some b => pure (some b)
    | none => firstM body rest

/-- Run over a list and collect the results. -/
def collect (body : α → Eff σ ε β) : List α → Eff σ ε (List β)
  | [] => pure []
  | a :: rest => do
    let b ← body a
    let later ← collect body rest
    pure (b :: later)

/-- The computation preserves `I`, whether it returns or fails. -/
def Keeps (I : σ → Prop) (m : Eff σ ε α) : Prop := ∀ s, I s → I (m s).2

/-- Every result the computation returns satisfies `Q`. -/
def Returns (Q : α → Prop) (m : Eff σ ε α) : Prop := ∀ s a t, m s = (.ok a,t) → Q a

theorem pure_eq (a : α) (s : σ) : (pure a : Eff σ ε α) s = (.ok a,s) := rfl

theorem get_eq (s : σ) : (get : Eff σ ε σ) s = (.ok s,s) := rfl

theorem attempt_eq (eq : m s = (result,t)) : attempt m s = (.ok result,t) := by
  simp only [attempt,eq]

theorem bracket_eq (eq : m (enter s) = (result,t)) : bracket enter leave m s = (result,leave s t) := by
  simp only [bracket,eq]

theorem bind_eq_ok (eq : m s = (.ok a,t)) : (m >>= f) s = f a t := by
  show (match m s with | (.ok a,t) => f a t | (.error e,t) => (.error e,t)) = f a t
  rw [eq]

theorem bind_eq_error (eq : m s = (.error e,t)) : (m >>= f) s = (.error e,t) := by
  show (match m s with | (.ok a,t) => f a t | (.error e,t) => (.error e,t)) = _
  rw [eq]

/-- A computation in sequence returns only through its first part. -/
theorem bind_ok_inv (eq : (m >>= f) s = (.ok b,u)) : ∃ a t, m s = (.ok a,t) ∧ f a t = (.ok b,u) := by
  rcases first : m s with ⟨_ | a,t⟩
  · rw [bind_eq_error first] at eq
    cases eq
  · exact ⟨a,t,rfl,by rw [← eq,bind_eq_ok first]⟩

/-- The same for a computation without state. -/
theorem except_bind_inv {x : Except ε α} {g : α → Except ε β} (eq : (x >>= g) = .ok b) :
    ∃ a, x = .ok a ∧ g a = .ok b := by
  cases x with
  | error e => cases eq
  | ok a => exact ⟨a,rfl,eq⟩

theorem except_bind_ok {x : Except ε α} {g : α → Except ε β} :
    (x >>= g) = .ok b ↔ ∃ a, x = .ok a ∧ g a = .ok b := by
  constructor
  · exact except_bind_inv
  · rintro ⟨a,rfl,later⟩
    exact later

theorem except_bind_error {x : Except ε α} {g : α → Except ε β} :
    (x >>= g) = .error e ↔ x = .error e ∨ ∃ a, x = .ok a ∧ g a = .error e := by
  cases x with
  | error other => simp [bind,Except.bind]
  | ok a => simp [bind,Except.bind]

theorem except_bind_toOption {x : Except ε α} {g : α → Except ε β} :
    (x >>= g).toOption = x.toOption.bind fun a => (g a).toOption := by
  cases x <;> rfl

theorem except_map_ok {x : Except ε α} {g : α → β} : x.map g = .ok b ↔ ∃ a, x = .ok a ∧ g a = b := by
  cases x with
  | error e => simp [Except.map]
  | ok a => simp [Except.map]

theorem except_map_error {x : Except ε α} {g : α → β} : x.map g = .error e ↔ x = .error e := by
  cases x with
  | error other => simp [Except.map]
  | ok a => simp [Except.map]

/-- The errors of a computation have one form. -/
def FailsWith (fail : β → ε) (result : Except ε α) : Prop := ∀ e, result = .error e → ∃ b, e = fail b

theorem failsWith_ok {fail : β → ε} (a : α) : FailsWith fail (.ok a) := by
  intro e failed
  cases failed

theorem failsWith_error (fail : β → ε) (b : β) : FailsWith fail (.error (fail b) : Except ε α) := by
  intro e failed
  cases failed
  exact ⟨b,rfl⟩

theorem failsWith_mono {fail : β → ε} {other : γ → ε} {result : Except ε α} (fails : FailsWith other result)
    (form : ∀ c, ∃ b, other c = fail b) : FailsWith fail result := by
  intro e failed
  obtain ⟨c,rfl⟩ := fails e failed
  exact form c

theorem failsWith_bind {fail : γ → ε} {x : Except ε α} {g : α → Except ε β} (first : FailsWith fail x)
    (later : ∀ a, FailsWith fail (g a)) : FailsWith fail (x >>= g) := by
  intro e failed
  rcases except_bind_error.mp failed with here | ⟨a,_,there⟩
  · exact first e here
  · exact later a e there

/-- All results are values. -/
def AllOk (results : List (Except ε α)) (values : List α) : Prop := results = values.map .ok

theorem allOk_nil : AllOk ([] : List (Except ε α)) values ↔ values = [] := by
  unfold AllOk
  rw [eq_comm,List.map_eq_nil_iff]

theorem allOk_singleton : AllOk [result] values ↔ ∃ a, result = .ok a ∧ values = [a] := by
  unfold AllOk
  constructor
  · intro same
    obtain ⟨a,rfl,ok⟩ := List.map_eq_singleton_iff.mp same.symm
    exact ⟨a,ok.symm,rfl⟩
  · rintro ⟨a,rfl,rfl⟩
    rfl

theorem allOk_append : AllOk (first ++ second) values ↔
    ∃ left right, AllOk first left ∧ AllOk second right ∧ values = left ++ right := by
  unfold AllOk
  constructor
  · intro same
    obtain ⟨left,right,rfl,one,two⟩ := List.map_eq_append_iff.mp same.symm
    exact ⟨left,right,one.symm,two.symm,rfl⟩
  · rintro ⟨left,right,rfl,rfl,rfl⟩
    simp

/-- A fold over the values of two lists of results, one list after the other. -/
theorem allOk_foldl_append {f : β → α → β} {b : β} {first second : List (Except ε α)} :
    (∃ middle, (∃ values, AllOk first values ∧ middle = values.foldl f b) ∧
      ∃ values, AllOk second values ∧ out = values.foldl f middle) ↔
    ∃ values, AllOk (first ++ second) values ∧ out = values.foldl f b := by
  simp only [allOk_append]
  constructor
  · rintro ⟨_,⟨left,one,rfl⟩,right,two,rfl⟩
    exact ⟨left ++ right,⟨left,right,one,two,rfl⟩,(List.foldl_append ..).symm⟩
  · rintro ⟨_,⟨left,right,one,two,rfl⟩,rfl⟩
    exact ⟨_,⟨left,one,rfl⟩,right,two,List.foldl_append ..⟩

theorem allOk_map {f : α → β} {results : List (Except ε α)} :
    AllOk (results.map (·.map f)) values ↔ ∃ given, AllOk results given ∧ values = given.map f := by
  unfold AllOk
  induction results generalizing values with
  | nil =>
    constructor
    · intro same
      exact ⟨[],rfl,List.map_eq_nil_iff.mp same.symm⟩
    · rintro ⟨given,same,rfl⟩
      rw [List.map_eq_nil_iff.mp same.symm]
      rfl
  | cons result rest ih =>
    cases result with
    | error e =>
      constructor
      · intro same
        cases values <;> cases same
      · rintro ⟨given,same,_⟩
        cases given <;> cases same
    | ok a =>
      constructor
      · intro same
        cases values with
        | nil => cases same
        | cons b others =>
          simp only [List.map_cons,Except.map,List.cons.injEq,Except.ok.injEq] at same
          obtain ⟨given,held,rfl⟩ := ih.mp same.2
          exact ⟨a :: given,by rw [held]; rfl,by rw [← same.1]; rfl⟩
      · rintro ⟨given,same,rfl⟩
        cases given with
        | nil => cases same
        | cons b others =>
          simp only [List.map_cons,List.cons.injEq,Except.ok.injEq] at same
          obtain ⟨rfl,rest⟩ := same
          have later := ih.mpr ⟨others,rest,rfl⟩
          simp only [List.map_cons,Except.map,List.cons.injEq,true_and]
          exact later

theorem exists_allOk_iff {results : List (Except ε α)} :
    (∃ values, AllOk results values) ↔ ∀ e, .error e ∉ results := by
  constructor
  · rintro ⟨values,rfl⟩ e member
    obtain ⟨_,_,impossible⟩ := List.mem_map.mp member
    cases impossible
  · intro none
    induction results with
    | nil => exact ⟨[],rfl⟩
    | cons result rest ih =>
      obtain ⟨values,ok⟩ := ih fun e member => none e (List.mem_cons_of_mem _ member)
      cases result with
      | error e => exact absurd List.mem_cons_self (none e)
      | ok a => exact ⟨a :: values,congrArg (Except.ok a :: ·) ok⟩

/-- In another order the results give the values in another order. -/
theorem AllOk.perm {results others : List (Except ε α)} (ok : AllOk results values)
    (perm : results.Perm others) : ∃ later, AllOk others later ∧ values.Perm later := by
  have none : ∀ e, Except.error e ∉ others := by
    intro e member
    exact exists_allOk_iff.mp ⟨values,ok⟩ e (perm.mem_iff.mpr member)
  obtain ⟨later,okLater⟩ := exists_allOk_iff.mpr none
  refine ⟨later,okLater,?_⟩
  have toOption : ∀ values : List α, (values.map (Except.ok : α → Except ε α)).filterMap Except.toOption = values := by
    intro values
    rw [List.filterMap_map]
    exact List.filterMap_some
  have same := perm.filterMap Except.toOption
  rw [ok,okLater,toOption,toOption] at same
  exact same

theorem keeps_pure (a : α) : Keeps I (pure a : Eff σ ε α) := fun _ holds => holds

theorem keeps_throw (e : ε) : Keeps I (throw e : Eff σ ε α) := fun _ holds => holds

theorem keeps_get : Keeps I (get : Eff σ ε σ) := fun _ holds => holds

/-- When the rest needs to know what the first part returned. -/
theorem keeps_bind_returns (first : Keeps I m) (gives : Returns Q m)
    (later : ∀ a, Q a → Keeps I (f a)) : Keeps I (m >>= f) := by
  intro s holds
  have kept := first s holds
  rcases eq : m s with ⟨_ | a,t⟩
  · rw [bind_eq_error eq]
    rwa [eq] at kept
  · rw [bind_eq_ok eq]
    rw [eq] at kept
    exact later a (gives s a t eq) t kept

/-- From a single state, where the rest may know how its state was reached. -/
theorem bind_state_of (reached : I (m s).2) (later : ∀ a t, m s = (.ok a,t) → I t → I (f a t).2) :
    I ((m >>= f) s).2 := by
  rcases eq : m s with ⟨_ | a,t⟩
  · rw [bind_eq_error eq]
    rwa [eq] at reached
  · rw [bind_eq_ok eq]
    rw [eq] at reached
    exact later a t eq reached

/-- From a single state the rest keeps what the first part came to. -/
theorem bind_state (reached : I (m s).2) (later : ∀ a, Keeps I (f a)) : I ((m >>= f) s).2 :=
  bind_state_of reached fun a t _ => later a t

theorem keeps_bind (first : Keeps I m) (later : ∀ a, Keeps I (f a)) : Keeps I (m >>= f) :=
  fun s holds => bind_state (first s holds) later

theorem keeps_map (first : Keeps I m) (g : α → β) : Keeps I (g <$> m) :=
  keeps_bind first fun a => keeps_pure (g a)

theorem keeps_attempt (kept : Keeps I m) : Keeps I (attempt m) := by
  intro s holds
  exact kept s holds

theorem mapError_state : (mapError label m s).2 = (m s).2 := by
  unfold mapError
  rcases m s with ⟨_ | a,t⟩ <;> rfl

theorem keeps_mapError (kept : Keeps I m) : Keeps I (mapError label m) := by
  intro s holds
  rw [mapError_state]
  exact kept s holds

theorem keeps_bracket {J : σ → σ → Prop} (entered : ∀ s, I s → J s (enter s))
    (kept : ∀ s, I s → Keeps (J s) m) (left : ∀ s t, I s → J s t → I (leave s t)) :
    Keeps I (bracket enter leave m) := by
  intro s holds
  exact left s _ holds (kept s holds (enter s) (entered s holds))

theorem keeps_firstM {body : α → Eff σ ε (Option β)} (kept : ∀ a ∈ items, Keeps I (body a)) :
    Keeps I (firstM body items) := by
  induction items with
  | nil => exact keeps_pure none
  | cons a rest ih =>
    refine keeps_bind (kept a (by simp)) fun found => ?_
    cases found with
    | none => exact ih fun b member => kept b (by simp [member])
    | some b => exact keeps_pure (some b)

theorem keeps_collect {body : α → Eff σ ε β} (kept : ∀ a ∈ items, Keeps I (body a)) :
    Keeps I (collect body items) := by
  induction items with
  | nil => exact keeps_pure []
  | cons a rest ih =>
    refine keeps_bind (kept a (by simp)) fun b => ?_
    exact keeps_bind (ih fun c member => kept c (by simp [member])) fun later => keeps_pure _

theorem returns_pure (holds : Q a) : Returns Q (pure a : Eff σ ε α) := by
  intro s b t eq
  cases eq
  exact holds

theorem returns_throw (e : ε) : Returns Q (throw e : Eff σ ε α) := by
  intro s a t eq
  cases eq

theorem returns_bind (first : Returns Q m) (later : ∀ a, Q a → Returns R (f a)) :
    Returns R (m >>= f) := by
  intro s b u eq
  obtain ⟨a,t,head,tail⟩ := bind_ok_inv eq
  exact later a (first s a t head) t b u tail

/-- When nothing is known about the first part. -/
theorem returns_bind_any (later : ∀ a, Returns R (f a)) : Returns R (m >>= f) :=
  returns_bind (Q := fun _ => True) (fun _ _ _ _ => trivial) fun a _ => later a

theorem returns_attempt (holds : Returns Q m) :
    Returns (fun outcome => ∀ a, outcome = .ok a → Q a) (attempt m) := by
  intro s outcome t eq a given
  unfold attempt at eq
  rcases inner : m s with ⟨result,u⟩
  rw [inner] at eq
  cases eq
  rw [given] at inner
  exact holds s a t inner

theorem returns_mapError (holds : Returns Q m) : Returns Q (mapError label m) := by
  intro s a t eq
  unfold mapError at eq
  rcases inner : m s with ⟨_ | b,u⟩
  · rw [inner] at eq
    cases eq
  · rw [inner] at eq
    cases eq
    exact holds s a t inner

theorem returns_firstM {body : α → Eff σ ε (Option β)}
    (holds : ∀ a ∈ items, Returns (fun found => ∀ b, found = some b → R b) (body a)) :
    Returns (fun found => ∀ b, found = some b → R b) (firstM body items) := by
  induction items with
  | nil => exact returns_pure (by simp)
  | cons a rest ih =>
    refine returns_bind (holds a (by simp)) fun found found_holds => ?_
    cases found with
    | none => exact ih fun b member => holds b (by simp [member])
    | some b => exact returns_pure found_holds

/-- From every state with `I` both computations do the same and end in a state with `I`. -/
def Agree (I : σ → Prop) (m n : Eff σ ε α) : Prop := ∀ s, I s → m s = n s ∧ I (m s).2

theorem agree_refl (kept : Keeps I m) : Agree I m m := fun s holds => ⟨rfl,kept s holds⟩

theorem Agree.keeps {n : Eff σ ε α} (same : Agree I m n) : Keeps I m := fun s holds => (same s holds).2

theorem agree_bind {n : Eff σ ε α} {g : α → Eff σ ε β} (first : Agree I m n)
    (later : ∀ a, Agree I (f a) (g a)) : Agree I (m >>= f) (n >>= g) := by
  intro s holds
  obtain ⟨same,kept⟩ := first s holds
  rcases eq : m s with ⟨_ | a,t⟩
  · rw [bind_eq_error eq,bind_eq_error (same ▸ eq)]
    rw [eq] at kept
    exact ⟨rfl,kept⟩
  · rw [bind_eq_ok eq,bind_eq_ok (same ▸ eq)]
    rw [eq] at kept
    exact later a t kept

/-- The first part is the same on both sides. -/
theorem agree_after {g : α → Eff σ ε β} (first : Keeps I m) (later : ∀ a, Agree I (f a) (g a)) :
    Agree I (m >>= f) (m >>= g) :=
  agree_bind (agree_refl first) later

theorem agree_attempt {n : Eff σ ε α} (same : Agree I m n) : Agree I (attempt m) (attempt n) := by
  intro s holds
  obtain ⟨eq,kept⟩ := same s holds
  exact ⟨by simp only [attempt,eq],kept⟩

theorem agree_mapError {n : Eff σ ε α} (same : Agree I m n) :
    Agree I (mapError label m) (mapError label n) := by
  intro s holds
  exact ⟨by simp only [mapError,(same s holds).1],keeps_mapError same.keeps s holds⟩

theorem agree_bracket {n : Eff σ ε α} {J : σ → σ → Prop} (entered : ∀ s, I s → J s (enter s))
    (same : ∀ s, I s → Agree (J s) m n) (left : ∀ s t, I s → J s t → I (leave s t)) :
    Agree I (bracket enter leave m) (bracket enter leave n) := by
  intro s holds
  refine ⟨?_,keeps_bracket entered (fun s holds => (same s holds).keeps) left s holds⟩
  simp only [bracket,(same s holds (enter s) (entered s holds)).1]

theorem agree_firstM {body other : α → Eff σ ε (Option β)}
    (same : ∀ a ∈ items, Agree I (body a) (other a)) : Agree I (firstM body items) (firstM other items) := by
  induction items with
  | nil => exact agree_refl (keeps_pure none)
  | cons a rest ih =>
    refine agree_bind (same a (by simp)) fun found => ?_
    cases found with
    | none => exact ih fun b member => same b (by simp [member])
    | some b => exact agree_refl (keeps_pure (some b))

/-- From every state both computations do the same, and add at most `n` to a measure of the
state, whether they return or fail. -/
def Spends (cost : σ → Nat) (n : Nat) (m m' : Eff σ ε α) : Prop :=
  ∀ s, m' s = m s ∧ cost (m s).2 ≤ cost s + n

section Spends
variable {cost : σ → Nat} {n k : Nat} {m' : Eff σ ε α} {f' : α → Eff σ ε β}

theorem spends_of_keeps (kept : ∀ c, Keeps (fun s => cost s = c) m) : Spends cost 0 m m :=
  fun s => ⟨rfl,Nat.le_of_eq (kept (cost s) s rfl)⟩

theorem Spends.mono (spent : Spends cost n m m') (le : n ≤ k) : Spends cost k m m' := by
  intro s
  obtain ⟨same,added⟩ := spent s
  exact ⟨same,by omega⟩

theorem spends_pure (a : α) : Spends cost n (pure a : Eff σ ε α) (pure a) :=
  fun _ => ⟨rfl,Nat.le_add_right _ _⟩

theorem spends_throw (e : ε) : Spends cost n (throw e : Eff σ ε α) (throw e) :=
  fun _ => ⟨rfl,Nat.le_add_right _ _⟩

/-- When the price of the rest depends on what the first part returned. -/
theorem spends_bind_returns (first : Spends cost n m m') (gives : Returns Q m)
    (later : ∀ a, Q a → Spends cost k (f a) (f' a)) : Spends cost (n + k) (m >>= f) (m' >>= f') := by
  intro s
  obtain ⟨same,before⟩ := first s
  rcases eq : m s with ⟨_ | a,t⟩
  · rw [eq] at before
    rw [bind_eq_error eq,bind_eq_error (same.trans eq)]
    refine ⟨rfl,?_⟩
    dsimp only at before ⊢
    omega
  · rw [eq] at before
    rw [bind_eq_ok eq,bind_eq_ok (same.trans eq)]
    obtain ⟨later_same,after⟩ := later a (gives s a t eq) t
    refine ⟨later_same,?_⟩
    dsimp only at before
    omega

theorem spends_bind (first : Spends cost n m m') (later : ∀ a, Spends cost k (f a) (f' a)) :
    Spends cost (n + k) (m >>= f) (m' >>= f') :=
  spends_bind_returns (Q := fun _ => True) first (fun _ _ _ _ => trivial) fun a _ => later a

/-- The first part is free. -/
theorem spends_after (first : Spends cost 0 m m') (later : ∀ a, Spends cost n (f a) (f' a)) :
    Spends cost n (m >>= f) (m' >>= f') := by
  have total := spends_bind first later
  rwa [Nat.zero_add] at total

/-- The rest is free. -/
theorem spends_before (first : Spends cost n m m') (later : ∀ a, Spends cost 0 (f a) (f' a)) :
    Spends cost n (m >>= f) (m' >>= f') :=
  spends_bind first later

theorem spends_attempt (spent : Spends cost n m m') : Spends cost n (attempt m) (attempt m') := by
  intro s
  obtain ⟨same,added⟩ := spent s
  exact ⟨by simp only [attempt,same],added⟩

theorem spends_mapError (spent : Spends cost n m m') :
    Spends cost n (mapError label m) (mapError label m') := by
  intro s
  obtain ⟨same,added⟩ := spent s
  unfold mapError
  rw [same]
  refine ⟨rfl,?_⟩
  rcases eq : m s with ⟨_ | a,t⟩
  · rwa [eq] at added
  · rwa [eq] at added

/-- Entering and leaving cost nothing. -/
theorem spends_bracket (entered : ∀ s, cost (enter s) = cost s) (left : ∀ s t, cost (leave s t) = cost t)
    (spent : Spends cost n m m') : Spends cost n (bracket enter leave m) (bracket enter leave m') := by
  intro s
  obtain ⟨same,added⟩ := spent (enter s)
  rw [entered] at added
  simp only [bracket,left,same]
  exact ⟨trivial,added⟩

theorem spends_firstM {body body' : α → Eff σ ε (Option β)} {price : α → Nat}
    (spent : ∀ a ∈ items, Spends cost (price a) (body a) (body' a)) :
    Spends cost (items.map price).sum (firstM body items) (firstM body' items) := by
  induction items with
  | nil => exact spends_pure none
  | cons a rest ih =>
    rw [List.map_cons,List.sum_cons]
    refine spends_bind (spent a (by simp)) fun found => ?_
    cases found with
    | none => exact ih fun b member => spent b (by simp [member])
    | some b => exact spends_pure (some b)

theorem spends_collect {body body' : α → Eff σ ε β} {price : α → Nat}
    (spent : ∀ a ∈ items, Spends cost (price a) (body a) (body' a)) :
    Spends cost (items.map price).sum (collect body items) (collect body' items) := by
  induction items with
  | nil => exact spends_pure []
  | cons a rest ih =>
    rw [List.map_cons,List.sum_cons]
    refine spends_bind (spent a (by simp)) fun b => ?_
    exact spends_before (ih fun other member => spent other (by simp [member])) fun _ => spends_pure _

end Spends
end Eff
