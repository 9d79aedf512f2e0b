import Ruuter.Engine
import Ruuter.Lib.Hoare

/-! The rule for `iterate` steps (`src/steps/iterate.rs`): an invariant over the items that are done and
the values that have been collected for them, kept by each round that does not return. -/
namespace Ruuter

section Rule
variable {h : Host} {engine : Engine} {ctx : Ctx} {E : RuuterError → St → Prop}

/-- What the rounds of a loop must keep. `I` holds between rounds; `J` holds behind the body of a round,
before its value is collected; a sub-step that returns leaves `R`. -/
structure LoopInvariant (h : Host) (engine : Engine) (ctx : Ctx) (b : IterateBody DslStep) (items : List Json)
    (I : List Json → List Json → St → Prop) (J : List Json → List Json → Json → St → Prop)
    (R : StepResult → St → Prop) (E : RuuterError → St → Prop) : Prop where
  body : ∀ done collected item rest, items = done ++ item :: rest →
    Eff.Triple (fun t => ∃ s, I done collected s ∧ t = { s with vars := s.vars.insert b.itemVar item })
      (runBody engine ctx b.body) (fun early t => early.elim (J done collected item t) (R · t)) E
  collect : ∀ done collected item rest, items = done ++ item :: rest →
    Eff.Triple (J done collected item) (evaluateOption h ctx b.collect)
      (fun value => I (done ++ [item]) (collected ++ value.toList)) E

theorem LoopInvariant.triple {b : IterateBody DslStep} {items : List Json} {I J R}
    (invariant : LoopInvariant h engine ctx b items I J R E) :
    Eff.Triple (I [] []) (iterateItems h engine ctx b items) (fun r t => r.elim (R · t) (I items · t)) E := by
  have from' : ∀ rest done collected, items = done ++ rest →
      Eff.Triple (I done collected) (iterateItems h engine ctx b rest)
        (fun r t => r.elim (R · t) fun later => I items (collected ++ later) t) E := by
    intro rest
    induction rest with
    | nil =>
      intro done collected split
      rw [List.append_nil] at split
      subst split
      exact Eff.triple_pure fun s holds => by rwa [Sum.elim_inr,List.append_nil]
    | cons item rest ih =>
      intro done collected split
      have item_set : Eff.Triple (I done collected) (setVariable b.itemVar item)
          (fun _ t => ∃ s, I done collected s ∧ t = { s with vars := s.vars.insert b.itemVar item }) E :=
        Eff.triple_modify fun s holds => ⟨s,holds,rfl⟩
      refine Eff.triple_bind item_set fun _ => Eff.triple_bind (invariant.body done collected item rest split) ?_
      intro early
      cases early with
      | some early => exact Eff.triple_pure fun _ holds => holds
      | none =>
        refine Eff.triple_bind (invariant.collect done collected item rest split) ?_
        intro value
        refine Eff.triple_bind (ih (done ++ [item]) (collected ++ value.toList) (by simp [split])) ?_
        intro r
        cases r with
        | inl early => exact Eff.triple_pure fun _ holds => holds
        | inr later =>
          refine Eff.triple_pure ?_
          intro s holds
          rw [Sum.elim_inr,List.append_assoc] at holds
          exact holds
  exact from' items [] [] rfl

/-- The rule for the whole step: the loop starts where `over` has been evaluated to an array that is not
too long, and what was collected is bound behind it. -/
theorem triple_iterate {s : IterateStep DslStep} {P : St → Prop} {I : List Json → List Json → List Json → St → Prop}
    {J : List Json → List Json → List Json → Json → St → Prop} {R : StepResult → St → Prop}
    (source : Eff.Triple P (evaluate h ctx s.iterate.over) (fun value t => ∀ items, value = .array items → I items [] [] t) E)
    (loop : ∀ items, items.length ≤ (s.iterate.maxItems.getD defaultMaxItems).toNat →
      LoopInvariant h engine ctx s.iterate items (I items) (J items) R E)
    (refused : ∀ message t, E (.invalidStep message) t) :
    Eff.Triple P (executeIterate h engine ctx s)
      (fun r t => R r t ∨ r = { nextStep := s.next } ∧ ∃ items collected u,
        items.length ≤ (s.iterate.maxItems.getD defaultMaxItems).toNat ∧ I items items collected u ∧
          t = (s.iterate.into.elim u fun name => { u with vars := u.vars.insert name (.array collected) })) E := by
  refine Eff.triple_bind source ?_
  intro value
  cases value with
  | array items =>
    by_cases long : (s.iterate.maxItems.getD defaultMaxItems).toNat < items.length
    · simp only [if_pos long]
      exact Eff.triple_throw fun t _ => refused _ t
    · simp only [if_neg long]
      have rounds := (loop items (Nat.le_of_not_lt long)).triple
      refine Eff.triple_bind (rounds.mono (fun t holds => holds items rfl) (fun _ _ holds => holds) fun _ _ holds => holds) ?_
      intro r
      cases r with
      | inl early => exact Eff.triple_pure fun _ holds => .inl holds
      | inr collected =>
        have bound : Eff.Triple (I items items collected) (bindResult s.iterate.into (.array collected))
            (fun _ t => ∃ u, I items items collected u ∧
              t = (s.iterate.into.elim u fun name => { u with vars := u.vars.insert name (.array collected) })) E := by
          cases s.iterate.into with
          | none => exact Eff.triple_pure fun u holds => ⟨u,holds,rfl⟩
          | some name => exact Eff.triple_modify fun u holds => ⟨u,holds,rfl⟩
        refine Eff.triple_bind bound fun _ => Eff.triple_pure ?_
        rintro t ⟨u,holds,same⟩
        exact .inr ⟨rfl,items,collected,u,Nat.le_of_not_lt long,holds,same⟩
  | _ => exact Eff.triple_throw fun t _ => refused _ t

theorem triple_runBody_returns {P : St → Prop} {steps : List DslStep} :
    Eff.Triple P (runBody engine ctx steps) (fun early _ => ∀ r, early = some r → r.shouldReturn = true)
      fun _ _ => True := by
  refine (Eff.triple_firstM (I := fun _ _ => True) ?_ ?_).mono (fun _ _ => trivial) (fun _ _ holds => holds)
    fun _ _ holds => holds
  · intro tried step rest _
    refine Eff.triple_bind Eff.triple_trivial fun result => Eff.triple_pure ?_
    intro _ _
    cases returns : result.shouldReturn with
    | false => trivial
    | true =>
      rintro r ⟨⟩
      exact returns
  · rintro _ _ r ⟨⟩

/-- The rounds of a loop, each from the state that the one before left: the body runs with the item bound,
and the value of `collect` behind it is collected. -/
inductive Rounds (h : Host) (engine : Engine) (ctx : Ctx) (b : IterateBody DslStep) (collect : Json) (s : St) :
    List Json → List Json → St → Prop
  | none : Rounds h engine ctx b collect s [] [] s
  | next : Rounds h engine ctx b collect s done collected t →
      runBody engine ctx b.body { t with vars := t.vars.insert b.itemVar item } = (.ok .none,u) →
      evaluate h ctx collect u = (.ok value,v) →
      Rounds h engine ctx b collect s (done ++ [item]) (collected ++ [value]) v

/-- One value is collected in each round. -/
theorem Rounds.length (rounds : Rounds h engine ctx b collect s done collected t) :
    collected.length = done.length := by
  induction rounds with
  | none => rfl
  | next _ _ _ ih => rw [List.length_append,List.length_append,ih]; rfl

/-- A loop that goes through to its end does so in rounds, from a state in which it starts. -/
theorem loop_rounds {s : IterateStep DslStep} (given : s.iterate.collect = some collect) (items : List Json)
    (starts : St → Prop) :
    LoopInvariant h engine ctx s.iterate items
      (fun done collected t => ∃ u, starts u ∧ Rounds h engine ctx s.iterate collect u done collected t)
      (fun done collected item t => ∃ u v, starts u ∧ Rounds h engine ctx s.iterate collect u done collected v ∧
        runBody engine ctx s.iterate.body { v with vars := v.vars.insert s.iterate.itemVar item } = (.ok none,t))
      (fun r _ => r.shouldReturn = true) fun _ _ => True := by
  constructor
  · intro done collected item rest _
    refine (Eff.triple_run.and triple_runBody_returns).mono (fun t holds => ⟨holds,trivial⟩) ?_ fun _ _ _ => trivial
    rintro early t ⟨⟨_,⟨v,⟨u,started,before⟩,rfl⟩,ran⟩,returns⟩
    cases early with
    | none => exact ⟨u,v,started,before,ran⟩
    | some r => exact returns r rfl
  · intro done collected item rest _
    rw [given]
    refine Eff.triple_map (Eff.triple_run.mono (fun _ holds => holds) (fun _ _ holds => holds) fun _ _ _ => trivial) ?_
    rintro value w ⟨t,⟨u,v,started,before,ran⟩,evaluated⟩
    exact ⟨u,started,before.next ran evaluated⟩

end Rule

/-- An `iterate` step that neither fails nor returns early has evaluated `over` to an array within its
bound, has gone through the items in rounds, each from the state that the one before left, and binds the
array of the values collected, one for each item in their order. -/
theorem iterate_collects (h : Host) (engine : Engine) (ctx : Ctx) (s : IterateStep DslStep) (start : St)
    (given : s.iterate.collect = some collect) (ran : executeIterate h engine ctx s start = (.ok r,t)) :
    r.shouldReturn = true ∨ r = { nextStep := s.next } ∧
      ∃ items collected u v, evaluate h ctx s.iterate.over start = (.ok (.array items),u) ∧
        items.length ≤ (s.iterate.maxItems.getD defaultMaxItems).toNat ∧
        Rounds h engine ctx s.iterate collect u items collected v ∧ collected.length = items.length ∧
        t = s.iterate.into.elim v fun name => { v with vars := v.vars.insert name (.array collected) } := by
  let starts := fun (items : List Json) (u : St) => evaluate h ctx s.iterate.over start = (.ok (.array items),u)
  have source : Eff.Triple (· = start) (evaluate h ctx s.iterate.over)
      (fun value t => ∀ items, value = .array items →
        ∃ u, starts items u ∧ Rounds h engine ctx s.iterate collect u [] [] t) fun _ _ => True := by
    refine Eff.triple_run.mono (fun _ same => same) ?_ fun _ _ _ => trivial
    rintro value t ⟨_,rfl,evaluated⟩ items rfl
    exact ⟨t,evaluated,.none⟩
  have triple := triple_iterate source (fun items _ => loop_rounds given items (starts items)) fun _ _ => trivial
  rcases (triple start rfl).1 r t ran with returns | ⟨next,items,collected,v,short,⟨u,evaluated,rounds⟩,bound⟩
  · exact .inl returns
  · exact .inr ⟨next,items,collected,u,v,evaluated,short,rounds,rounds.length,bound⟩

def pairLoop : IterateStep DslStep where
  iterate :=
    { «over» := .array [.string "a",.string "b"], itemVar := "item", body := [.log { log := .string "item" }]
      collect := some (.string "seen"), into := some "all" }
  next := some "done"

theorem iterate_collects_pair :
    ((executeIterate {} (engine {} 1) {} pairLoop {}).2.vars.lookup "all") = some (.array [.string "seen",.string "seen"]) ∧
      ∃ items collected u v, evaluate {} {} pairLoop.iterate.over {} = (.ok (.array items),u) ∧
        Rounds {} (engine {} 1) {} pairLoop.iterate (.string "seen") u items collected v ∧
        collected.length = items.length := by
  have ran : executeIterate {} (engine {} 1) {} pairLoop {} =
      (.ok { nextStep := some "done" },(executeIterate {} (engine {} 1) {} pairLoop {}).2) := rfl
  refine ⟨rfl,?_⟩
  rcases iterate_collects {} (engine {} 1) {} pairLoop {} rfl ran with
    returns | ⟨_,items,collected,u,v,evaluated,_,rounds,each,_⟩
  · cases returns
  · exact ⟨items,collected,u,v,evaluated,rounds,each⟩

end Ruuter
