import Ruuter.Declaration

/-! The guard loop. It stands four times in the source, in front of a DSL body
(`execute_dsl`), a proxied request, a WebSocket upgrade and the target of a `template` step. -/
namespace Ruuter

structure DslExecutionResult where
  value : Option Json := none
  status : UInt16 := 200
  headers : StringMap String := ∅
  wrapper : Option Bool := none

/-- `engine.run`, as a guard loop calls it. -/
abbrev Runner := Dsl → Ctx → M DslExecutionResult

/-- Why a guard loop did not let a request through. -/
inductive Refusal
  | contract (e : RuuterError)
  | stack (e : RuuterError)
  | failed (e : RuuterError)
  | denied (result : DslExecutionResult)

section Loop
variable (run : Runner) (ctx : Ctx)

/-- One round. With `skip` a guard that is already on the stack is passed over. -/
def admitGuard (skip : Bool) (contract : Dsl → Except RuuterError Unit) (entry : String × Dsl) :
    M (Option Refusal) := do
  let s ← Eff.get
  if skip && isGuardOnStack s entry.1 then pure none
  else
    match contract entry.2 with
    | .error e => pure (some (.contract e))
    | .ok () =>
      match ← Eff.attempt (checkGuard entry.1) with
      | .error e => pure (some (.stack e))
      | .ok () =>
        match ← Eff.attempt (inFrame entry.1 (run entry.2 ctx)) with
        | .error e => pure (some (.failed e))
        | .ok result => pure (if 400 ≤ result.status then some (.denied result) else none)

def guardLoop (skip : Bool) (contract : Dsl → Except RuuterError Unit)
    (chain : List (String × Dsl)) : M (Option Refusal) :=
  Eff.firstM (admitGuard run ctx skip contract) chain

/-- The loop of `execute_dsl`. -/
def executeDslGuards (method : String) : List (String × Dsl) → M (Option Refusal) :=
  guardLoop run ctx false (guardContract · ctx.view method)

/-- The loop of the proxy branch of `handle_request_inner`. -/
def proxyGuards (method : String) : List (String × Dsl) → M (Option Refusal) :=
  guardLoop run ctx false (guardContract · ctx.view method)

/-- The loop of `handle_ws_upgrade`, which has no declaration check. -/
def wsUpgradeGuards : List (String × Dsl) → M (Option Refusal) :=
  guardLoop run ctx false fun _ => .ok ()

/-- The loop of the `template` step: no declaration check, and guards on the stack are
passed over. -/
def templateGuards : List (String × Dsl) → M (Option Refusal) :=
  guardLoop run ctx true fun _ => .ok ()

end Loop

/-- What the loop is for: every guard of the chain, in order, meets its contract and then
runs with a status below 400. -/
inductive Admitted (run : Runner) (ctx : Ctx) (contract : Dsl → Except RuuterError Unit) :
    List (String × Dsl) → St → St → Prop
  | nil : Admitted run ctx contract [] s s
  | cons {guard : Dsl} (meets : contract guard = .ok ())
      (ran : inFrame key (run guard ctx) s = (.ok result,t)) (below : result.status < 400)
      (later : Admitted run ctx contract rest t u) :
      Admitted run ctx contract ((key,guard) :: rest) s u

/-- A runner that leaves the guard stack as it found it. -/
def Balanced (run : Runner) : Prop := ∀ dsl ctx s, (run dsl ctx s).2.guardStack = s.guardStack

/-- The guards a loop has to run from a state. -/
def pending (skip : Bool) (s : St) (chain : List (String × Dsl)) : List (String × Dsl) :=
  chain.filter fun entry => !(skip && isGuardOnStack s entry.1)

section Admission
variable {run : Runner} {ctx : Ctx} {contract : Dsl → Except RuuterError Unit} {skip : Bool}
  {guard : Dsl}

theorem inFrame_stack (balanced : Balanced run)
    (ran : inFrame key (run guard ctx) s = (outcome,t)) : t.guardStack = s.guardStack := by
  have kept := balanced guard ctx { s with guardStack := s.guardStack ++ [key] }
  simp only [inFrame,Eff.bracket] at ran
  cases ran
  rw [kept,List.dropLast_concat]

theorem checkGuard_state : (checkGuard key s).2 = s := by
  unfold checkGuard
  split
  · rfl
  · split <;> rfl

theorem checkGuard_eq_ok : (checkGuard key s).1 = .ok () ↔
    s.guardStack.length < maxGuardDepth ∧ isGuardOnStack s key = false := by
  unfold checkGuard
  split
  · simp only [reduceCtorEq,false_iff]
    omega
  · split <;> simp_all

/-- A round that passes over its guard. -/
theorem admitGuard_skip (met : (skip && isGuardOnStack s key) = true) :
    admitGuard run ctx skip contract (key,guard) s = (.ok none,s) := by
  simp only [admitGuard]
  rw [Eff.bind_eq_ok (Eff.get_eq s),if_pos met]
  rfl

/-- A round that runs its guard. -/
theorem admitGuard_run (runs : (skip && isGuardOnStack s key) = false) (meets : contract guard = .ok ())
    (depth : (checkGuard key s).1 = .ok ()) :
    admitGuard run ctx skip contract (key,guard) s =
      match inFrame key (run guard ctx) s with
      | (.error e,t) => (.ok (some (.failed e)),t)
      | (.ok result,t) => (.ok (if 400 ≤ result.status then some (.denied result) else none),t) := by
  have checked : Eff.attempt (checkGuard key) s = (.ok (.ok ()),s) := by
    exact Eff.attempt_eq (Prod.ext depth checkGuard_state)
  simp only [admitGuard]
  rw [Eff.bind_eq_ok (Eff.get_eq s),if_neg (by simp [runs])]
  simp only [meets]
  rw [Eff.bind_eq_ok checked]
  rcases ran : inFrame key (run guard ctx) s with ⟨_ | result,t⟩
  · exact Eff.bind_eq_ok (Eff.attempt_eq ran)
  · exact Eff.bind_eq_ok (Eff.attempt_eq ran)

theorem admitGuard_contract (runs : (skip && isGuardOnStack s key) = false)
    (fails : contract guard = .error e) :
    admitGuard run ctx skip contract (key,guard) s = (.ok (some (.contract e)),s) := by
  simp only [admitGuard]
  rw [Eff.bind_eq_ok (Eff.get_eq s),if_neg (by simp [runs])]
  simp only [fails]
  rfl

theorem admitGuard_stack (runs : (skip && isGuardOnStack s key) = false)
    (meets : contract guard = .ok ()) (depth : (checkGuard key s).1 = .error e) :
    admitGuard run ctx skip contract (key,guard) s = (.ok (some (.stack e)),s) := by
  have checked : Eff.attempt (checkGuard key) s = (.ok (.error e),s) :=
    Eff.attempt_eq (Prod.ext depth checkGuard_state)
  simp only [admitGuard]
  rw [Eff.bind_eq_ok (Eff.get_eq s),if_neg (by simp [runs])]
  simp only [meets]
  rw [Eff.bind_eq_ok checked]
  rfl

/-- A round that lets the request through passed over its guard or ran it to the end. -/
theorem admitGuard_pass (passed : admitGuard run ctx skip contract (key,guard) s = (.ok none,t)) :
    ((skip && isGuardOnStack s key) = true ∧ t = s) ∨
    ((skip && isGuardOnStack s key) = false ∧ contract guard = .ok () ∧
      (checkGuard key s).1 = .ok () ∧
      ∃ result, inFrame key (run guard ctx) s = (.ok result,t) ∧ result.status < 400) := by
  by_cases met : (skip && isGuardOnStack s key) = true
  · rw [admitGuard_skip met] at passed
    cases passed
    exact .inl ⟨met,rfl⟩
  · have runs : (skip && isGuardOnStack s key) = false := by simpa using met
    cases meets : contract guard with
    | error e =>
      rw [admitGuard_contract runs meets] at passed
      cases passed
    | ok =>
      cases depth : (checkGuard key s).1 with
      | error e =>
        rw [admitGuard_stack runs meets depth] at passed
        cases passed
      | ok =>
        rw [admitGuard_run runs meets depth] at passed
        rcases ran : inFrame key (run guard ctx) s with ⟨_ | result,u⟩
        · rw [ran] at passed
          cases passed
        · rw [ran] at passed
          by_cases above : 400 ≤ result.status
          · simp only [above] at passed
            cases passed
          · simp only [above] at passed
            cases passed
            exact .inr ⟨runs,rfl,rfl,result,rfl,UInt16.not_le.mp above⟩

theorem pending_congr (same : t.guardStack = s.guardStack) : pending skip t chain = pending skip s chain := by
  simp only [pending,isGuardOnStack,same]

theorem pending_skip (met : (skip && isGuardOnStack s key) = true) :
    pending skip s ((key,guard) :: rest) = pending skip s rest :=
  List.filter_cons_of_neg (by rw [met]; decide)

theorem pending_run (runs : (skip && isGuardOnStack s key) = false) :
    pending skip s ((key,guard) :: rest) = (key,guard) :: pending skip s rest :=
  List.filter_cons_of_pos (by rw [runs]; decide)

/-- The loop lets a request through only after it ran every guard due, on a stack with room. -/
theorem guardLoop_admitted (balanced : Balanced run)
    (reached : guardLoop run ctx skip contract chain s = (.ok none,u)) :
    Admitted run ctx contract (pending skip s chain) s u ∧
      (pending skip s chain ≠ [] → s.guardStack.length < maxGuardDepth) := by
  induction chain generalizing s with
  | nil =>
    cases reached
    exact ⟨.nil,by simp [pending]⟩
  | cons entry rest ih =>
    obtain ⟨key,guard⟩ := entry
    obtain ⟨found,t,head,tail⟩ := Eff.bind_ok_inv reached
    cases found with
    | some refusal => cases tail
    | none =>
      obtain ⟨met,rfl⟩ | ⟨runs,meets,depth,result,ran,below⟩ := admitGuard_pass head
      · rw [pending_skip met]
        exact ih tail
      · have same : t.guardStack = s.guardStack := inFrame_stack balanced ran
        have later := (ih tail).1
        rw [pending_congr same] at later
        rw [pending_run runs]
        exact ⟨.cons meets ran below later,fun _ => (checkGuard_eq_ok.mp depth).1⟩

theorem admitted_cons : Admitted run ctx contract ((key,guard) :: rest) s u ↔
    contract guard = .ok () ∧ ∃ result t, inFrame key (run guard ctx) s = (.ok result,t) ∧
      result.status < 400 ∧ Admitted run ctx contract rest t u := by
  constructor
  · intro admitted
    cases admitted with
    | cons meets ran below later => exact ⟨meets,_,_,ran,below,later⟩
  · rintro ⟨meets,result,t,ran,below,later⟩
    exact .cons meets ran below later

/-- Guards that admit lead the loop to its end, when every guard due fits on the stack. -/
theorem guardLoop_of_admitted (balanced : Balanced run)
    (room : pending skip s chain ≠ [] → s.guardStack.length < maxGuardDepth)
    (clear : ∀ entry ∈ pending skip s chain, isGuardOnStack s entry.1 = false)
    (admitted : Admitted run ctx contract (pending skip s chain) s u) :
    guardLoop run ctx skip contract chain s = (.ok none,u) := by
  induction chain generalizing s with
  | nil =>
    cases admitted
    rfl
  | cons entry rest ih =>
    obtain ⟨key,guard⟩ := entry
    by_cases met : (skip && isGuardOnStack s key) = true
    · rw [pending_skip met] at room clear admitted
      exact (Eff.bind_eq_ok (admitGuard_skip met)).trans (ih room clear admitted)
    · have runs : (skip && isGuardOnStack s key) = false := by simpa using met
      rw [pending_run runs] at room clear admitted
      obtain ⟨meets,result,t,ran,below,later⟩ := admitted_cons.mp admitted
      have depth := room (List.cons_ne_nil _ _)
      have passes : admitGuard run ctx skip contract (key,guard) s = (.ok none,t) := by
        rw [admitGuard_run runs meets (checkGuard_eq_ok.mpr ⟨depth,clear _ List.mem_cons_self⟩),ran]
        simp [UInt16.not_le.mpr below]
      -- The guard left the stack as it was, so the same guards are due after it.
      have same : t.guardStack = s.guardStack := inFrame_stack balanced ran
      have tail := ih (s := t) (fun _ => by rwa [same])
        (by
          intro entry member
          rw [pending_congr same] at member
          simpa [isGuardOnStack,same] using clear entry (List.mem_cons_of_mem _ member))
        (by rwa [pending_congr same])
      exact (Eff.bind_eq_ok passes).trans tail

/-- A chain whose contracts hold is admitted by guards that admit at once. -/
theorem Admitted.of_open (meets : ∀ entry ∈ chain, contract entry.2 = .ok ()) :
    Admitted (fun _ _ => pure {}) ctx contract chain s s := by
  induction chain with
  | nil => exact .nil
  | cons entry rest ih =>
    have ran : inFrame entry.1 ((fun _ _ => pure {} : Runner) entry.2 ctx) s = (.ok {},s) := by
      simp [inFrame,Eff.bracket,Eff.pure_eq]
    exact .cons (meets entry List.mem_cons_self) ran (by decide)
      (ih fun later member => meets later (List.mem_cons_of_mem _ member))

end Admission

/-- Guards first: the target runs when the loop lets the request through. -/
def guarded (loop : M (Option Refusal)) (refuse : Refusal → M α) (target : M α) : M α := do
  match ← loop with
  | some refusal => refuse refusal
  | none => target

/-- The outcome from a state depends on the target: the target is run. -/
def Reached (surface : M α → M α) (s : St) : Prop :=
  ∃ target other, surface target s ≠ surface other s

theorem reached_guarded : Reached (guarded loop refuse : M α → M α) s ↔ ∃ u, loop s = (.ok none,u) := by
  constructor
  · rintro ⟨target,other,differ⟩
    rcases looped : loop s with ⟨e | found,u⟩
    · refine absurd ?_ differ
      simp only [guarded]
      rw [Eff.bind_eq_error looped,Eff.bind_eq_error looped]
    · cases found with
      | none => exact ⟨u,rfl⟩
      | some refusal =>
        refine absurd ?_ differ
        simp only [guarded]
        rw [Eff.bind_eq_ok looped,Eff.bind_eq_ok looped]
  · rintro ⟨u,looped⟩
    refine ⟨Eff.throw .outOfFuel,Eff.throw (.timeout ""),?_⟩
    simp only [guarded]
    rw [Eff.bind_eq_ok looped,Eff.bind_eq_ok looped]
    simp [Eff.throw]

end Ruuter
