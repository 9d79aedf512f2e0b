import Ruuter.CallGraph
import Ruuter.Frame
import Ruuter.GuardRun

/-! How many steps are dispatched. Every executor is priced by what the runs it starts cost; the
rules compare two engines at once, so that a bound comes with the proof that both do the same. -/
namespace Ruuter

/-- The number of steps dispatched. -/
def dispatches (trace : List Event) : Nat :=
  trace.countP fun event =>
    match event with
    | .dispatched _ => true
    | _ => false

def dispatched (s : St) : Nat := dispatches s.trace

namespace Tree

/-- What a step of weight one can dispatch when each nested run dispatches at most `n`: itself,
the guards and the target of a `template` step or of its self-calls, and the exception DSL. -/
def stepPrice (tree : Tree) (peers n : Nat) : Nat := 1 + ((peers + 1) * ((tree.guardCount + 1) * n) + n)

/-- What a run can dispatch when runs nest to a depth, and a `parallel_http` step makes at most
`peers` self-calls. -/
def runBound (tree : Tree) (peers rounds : Nat) : (depth : Nat) → Nat
  | 0 => 0
  | depth + 1 => rounds * (tree.weight * tree.stepPrice peers (tree.runBound peers rounds depth))

/-- What a request can dispatch when no DSL is run inside a run of itself. -/
def requestBound (tree : Tree) (peers : Nat) (maxIterations : UInt32) : Nat :=
  (tree.guardCount + 1) * tree.runBound peers maxIterations.toNat tree.members.length

/-- The fuel that runs nested to a depth need. -/
def fuelFor (tree : Tree) (depth : Nat) : Nat := 1 + depth * (bodyDepth tree.steps + 1)

end Tree

section Mono
variable {tree : Tree}

theorem stepPrice_mono (less : n ≤ k) : tree.stepPrice peers n ≤ tree.stepPrice peers k :=
  Nat.add_le_add_left (Nat.add_le_add (Nat.mul_le_mul_left _ (Nat.mul_le_mul_left _ less)) less) 1

theorem runBound_mono : Monotone (tree.runBound peers rounds) := by
  apply monotone_nat_of_le_succ
  intro depth
  induction depth with
  | zero => exact Nat.zero_le _
  | succ depth ih => exact Nat.mul_le_mul_left _ (Nat.mul_le_mul_left _ (stepPrice_mono ih))

end Mono

section Free
variable {m m' : M α}

theorem count_frame (c : Nat) : Frame (fun s => dispatched s = c) fun _ => True := by
  apply free_frame
  · intro s t held _ trace
    rw [← held,dispatched,dispatched,trace]
  · intro event within s held
    have silent : dispatches [event] = 0 := by
      cases event with
      | dispatched step => exact within.elim
      | _ => rfl
    simp only [dispatched,dispatches,emit,Eff.modify,List.countP_append] at silent held ⊢
    omega

/-- What needs nothing but a frame dispatches nothing. -/
theorem free_of_frame (kept : ∀ I : St → Prop, Frame I (fun _ => True) → Eff.Keeps I m) :
    Eff.Spends dispatched 0 m m :=
  Eff.spends_of_keeps fun c => kept _ (count_frame c)

theorem isolated_spends (spent : Eff.Spends dispatched n m m') :
    Eff.Spends dispatched n (isolated vars m) (isolated vars m') :=
  Eff.spends_bracket (fun _ => rfl) (fun _ _ => rfl) spent

theorem inChild_spends (spent : Eff.Spends dispatched n m m') :
    Eff.Spends dispatched n (inChild m) (inChild m') :=
  Eff.spends_bracket (fun _ => rfl) (fun _ _ => rfl) spent

theorem inFrame_spends (spent : Eff.Spends dispatched n m m') :
    Eff.Spends dispatched n (inFrame key m) (inFrame key m') :=
  Eff.spends_bracket (fun _ => rfl) (fun _ _ => rfl) spent

theorem raise_spends (refusal : Refusal) : Eff.Spends dispatched 0 refusal.raise refusal.raise :=
  Eff.spends_of_keeps fun _ => raise_keeps refusal

theorem consult_free : Eff.Spends dispatched 0 (consult answer) (consult answer) :=
  free_of_frame fun _ frame => frame.consult

/-- What the host answers at every moment. -/
theorem consult_spends {Q : α → Prop} {f f' : α → M β} (answers : ∀ now, Q (answer now))
    (later : ∀ a, Q a → Eff.Spends dispatched n (f a) (f' a)) :
    Eff.Spends dispatched n (consult answer >>= f) (consult answer >>= f') := by
  have given : Eff.Returns Q (consult answer) := by
    intro s a t eq
    cases eq
    exact answers s.clock
  have total := Eff.spends_bind_returns consult_free given later
  rwa [Nat.zero_add] at total

theorem ofExcept_free {outcome : Except RuuterError α} :
    Eff.Spends dispatched 0 (ofExcept outcome) (ofExcept outcome) :=
  free_of_frame fun _ _ => keeps_ofExcept outcome

theorem bindResult_free : Eff.Spends dispatched 0 (bindResult result value) (bindResult result value) :=
  free_of_frame fun _ frame => frame.bindResult

theorem get_free : Eff.Spends dispatched 0 (Eff.get : M St) Eff.get :=
  fun _ => ⟨rfl,Nat.le_refl _⟩

theorem checkGuard_free : Eff.Spends dispatched 0 (checkGuard key) (checkGuard key) :=
  fun s => ⟨rfl,by rw [checkGuard_state]; omega⟩

theorem traceparentOf_free : Eff.Spends dispatched 0 (traceparentOf r given) (traceparentOf r given) := by
  unfold traceparentOf
  split
  · exact Eff.spends_pure _
  · exact consult_free

end Free

/-- What the executors rely on: two engines that do the same on the callable DSLs and on the
steps up to a depth that have no other run, with a bound on every run and on every step by its
weight. -/
structure Budget (h : Host) (client : HttpClient) (tree : Tree) (callable : Dsl → Prop)
    (engine other : Engine) (depth peers n : Nat) : Prop where
  serves : Serves h tree
  run : ∀ dsl, callable dsl → ∀ ctx, Eff.Spends dispatched n (engine.run dsl ctx) (other.run dsl ctx)
  step : ∀ step ctx, step.Fits h client tree callable depth →
    Eff.Spends dispatched (step.weight * tree.stepPrice peers n) (engine.step step ctx) (other.step step ctx)

section Executors
variable {tree : Tree} {h : Host} {client : HttpClient} {callable : Dsl → Prop} {engine other : Engine}
  {ctx : Ctx} {depth peers n : Nat} {run run' : Runner} {r : Router}
  {send send' : Outbound → M (Except RuuterError HttpResponse)}
  {sendAll sendAll' : List Outbound → M (List (Except RuuterError HttpResponse))}

theorem guardLoop_spends (chain : List (String × Dsl))
    (spent : ∀ entry ∈ chain, Eff.Spends dispatched n (run entry.2 ctx) (run' entry.2 ctx)) :
    Eff.Spends dispatched (chain.length * n) (guardLoop run ctx skip contract chain)
      (guardLoop run' ctx skip contract chain) := by
  have total : (chain.map fun _ => n).sum = chain.length * n := by simp
  rw [← total]
  refine Eff.spends_firstM fun entry member => ?_
  refine Eff.spends_after get_free fun s => ?_
  split
  · exact Eff.spends_pure _
  · split
    · exact Eff.spends_pure _
    · refine Eff.spends_after (Eff.spends_attempt checkGuard_free) fun checked => ?_
      cases checked with
      | error e => exact Eff.spends_pure _
      | ok =>
        refine Eff.spends_before (Eff.spends_attempt (inFrame_spends (spent entry member))) fun outcome => ?_
        cases outcome with
        | error e => exact Eff.spends_pure _
        | ok result => exact Eff.spends_pure _

/-- The guards of a route and then its target. -/
theorem guarded_spends {α : Type} {refuse : Refusal → M α} {target target' : M α} {mode : GuardMode}
    (spent : ∀ entry ∈ applicableGuards tree.guards mode project key,
      Eff.Spends dispatched n (run entry.2 ctx) (run' entry.2 ctx))
    (refused : ∀ refusal, Eff.Spends dispatched 0 (refuse refusal) (refuse refusal))
    (later : Eff.Spends dispatched k target target') :
    Eff.Spends dispatched (tree.guardCount * n + k)
      (guarded (guardLoop run ctx skip contract (applicableGuards tree.guards mode project key)) refuse
        target)
      (guarded (guardLoop run' ctx skip contract (applicableGuards tree.guards mode project key)) refuse
        target') := by
  have loop : Eff.Spends dispatched (tree.guardCount * n)
      (guardLoop run ctx skip contract (applicableGuards tree.guards mode project key))
      (guardLoop run' ctx skip contract (applicableGuards tree.guards mode project key)) :=
    (guardLoop_spends _ spent).mono (Nat.mul_le_mul_right n (applicableGuards_length tree mode project key))
  refine Eff.spends_bind loop fun found => ?_
  cases found with
  | some refusal => exact (refused refusal).mono (Nat.zero_le _)
  | none => exact later

/-- The guards and the DSL of one request. -/
theorem executeDsl_spends
    (spent : ∀ dsl ∈ tree.members, ∀ ctx, Eff.Spends dispatched n (run dsl ctx) (run' dsl ctx)) :
    Eff.Spends dispatched ((tree.guardCount + 1) * n)
      (executeDsl r run tree project method path body query headers origin)
      (executeDsl r run' tree project method path body query headers origin) := by
  rw [Nat.succ_mul]
  unfold executeDsl
  dsimp only
  split
  · exact Eff.spends_throw _
  · rename_i dsl key params found
    have member := resolve_mem found
    refine Eff.spends_after traceparentOf_free fun traceparent => ?_
    refine isolated_spends (guarded_spends (fun _ guard => spent _ (applicableGuards_mem guard) _)
      raise_spends ?_)
    unfold runDeclared
    split
    · exact spent dsl member _
    · exact Eff.spends_after ofExcept_free fun view => spent dsl member _

/-- How many of the requests are self-calls. -/
def HttpClient.selfCalls (client : HttpClient) (requests : List Outbound) : Nat :=
  requests.countP fun request => client.isSelf request.url

/-- What a request can cost: nothing, unless it is a self-call. -/
def callPrice (client : HttpClient) (tree : Tree) (n : Nat) (request : Outbound) : Nat :=
  if client.isSelf request.url = true then (tree.guardCount + 1) * n else 0

theorem callPrice_le : callPrice client tree n request ≤ (tree.guardCount + 1) * n := by
  unfold callPrice
  split
  · exact Nat.le_refl _
  · exact Nat.zero_le _

theorem callPrice_sum (requests : List Outbound) : (requests.map (callPrice client tree n)).sum =
    client.selfCalls requests * ((tree.guardCount + 1) * n) := by
  induction requests with
  | nil => simp [HttpClient.selfCalls]
  | cons request rest ih =>
    rw [List.map_cons,List.sum_cons,ih]
    by_cases own : client.isSelf request.url = true
    · have more : client.selfCalls (request :: rest) = client.selfCalls rest + 1 := by
        simp [HttpClient.selfCalls,own]
      rw [more,Nat.succ_mul (client.selfCalls rest),Nat.add_comm,callPrice,if_pos own]
    · have same : client.selfCalls (request :: rest) = client.selfCalls rest := by
        simp [HttpClient.selfCalls,own]
      rw [same,callPrice,if_neg own,Nat.zero_add]

theorem requestWithCt_spends (spent : client.selfOrigins ≠ [] → ∀ dsl ∈ tree.members, ∀ ctx,
    Eff.Spends dispatched n (run dsl ctx) (run' dsl ctx)) (request : Outbound) :
    Eff.Spends dispatched (callPrice client tree n request) (requestWithCt h client r run tree request)
      (requestWithCt h client r run' tree request) := by
  refine Eff.spends_after (free_of_frame fun _ frame => frame.emits trivial) fun _ => ?_
  split
  · exact Eff.spends_pure _
  · split
    · exact Eff.spends_pure _
    · split
      · rename_i own
        have origins : client.selfOrigins ≠ [] := by
          intro external
          rw [isSelf_external external] at own
          exact Bool.false_ne_true own.1
        rw [callPrice,if_pos own.1]
        apply Eff.spends_attempt
        unfold selfCallDispatch
        split
        · exact Eff.spends_throw _
        · exact Eff.spends_before (executeDsl_spends (spent origins)) fun _ => Eff.spends_pure _
      · exact consult_free.mono (Nat.zero_le _)

/-- The guards and the target of whichever branch serves a request. -/
theorem handleRequestInner_spends
    (spent : ∀ dsl ∈ tree.members, ∀ ctx, Eff.Spends dispatched n (run dsl ctx) (run' dsl ctx))
    (req : Request) : Eff.Spends dispatched ((tree.guardCount + 1) * n) (handleRequestInner r run tree req)
      (handleRequestInner r run' tree req) := by
  have total : tree.guardCount * n + 0 ≤ (tree.guardCount + 1) * n := by
    rw [Nat.succ_mul]
    omega
  have dsl_branch : ∀ project path, Eff.Spends dispatched ((tree.guardCount + 1) * n)
      (dslRoute r run tree req project path) (dslRoute r run' tree req project path) := by
    intro project path
    unfold dslRoute
    split
    · exact Eff.spends_pure _
    · refine Eff.spends_before (Eff.spends_attempt (executeDsl_spends spent)) fun outcome => ?_
      exact Eff.spends_after traceparentOf_free fun _ => Eff.spends_pure _
  unfold handleRequestInner
  split
  · exact Eff.spends_pure _
  · unfold handleWsUpgrade
    split
    · split
      · exact Eff.spends_pure _
      · exact Eff.spends_pure _
    · refine (isolated_spends (guarded_spends (fun _ guard => spent _ (applicableGuards_mem guard) _) ?_
        (Eff.spends_pure _))).mono total
      intro refusal
      cases refusal <;> exact Eff.spends_pure _
  · split
    · exact Eff.spends_pure _
    · unfold routeRequest
      split
      · exact dsl_branch _ _
      · split
        · refine Eff.spends_after traceparentOf_free fun traceparent => ?_
          refine (isolated_spends (guarded_spends (fun _ guard => spent _ (applicableGuards_mem guard) _) ?_
            (Eff.spends_pure _))).mono total
          intro refusal
          cases refusal <;> exact Eff.spends_pure _
        · split
          · exact Eff.spends_pure _
          · exact dsl_branch _ _

theorem requestWithCt_budget (budget : Budget h client tree callable engine other depth peers n)
    (calls : client.selfOrigins ≠ [] → ∀ dsl ∈ tree.members, callable dsl) (request : Outbound) :
    Eff.Spends dispatched (callPrice client tree n request) (requestWithCt h client r engine.run tree request)
      (requestWithCt h client r other.run tree request) :=
  requestWithCt_spends (fun origins dsl member => budget.run dsl (calls origins dsl member)) request

theorem collect_budget (budget : Budget h client tree callable engine other depth peers n)
    (calls : client.selfOrigins ≠ [] → ∀ dsl ∈ tree.members, callable dsl) {requests : List Outbound}
    (few : client.selfCalls requests ≤ peers) :
    Eff.Spends dispatched (peers * ((tree.guardCount + 1) * n))
      (Eff.collect (requestWithCt h client r engine.run tree) requests)
      (Eff.collect (requestWithCt h client r other.run tree) requests) := by
  refine (Eff.spends_collect fun request _ => requestWithCt_budget budget calls request).mono ?_
  rw [callPrice_sum]
  exact Nat.mul_le_mul_right _ few

theorem reportFailure_spends (budget : Budget h client tree callable engine other depth peers n)
    (calls : (DslStep.http s).CallsDirectly h client tree callable) :
    Eff.Spends dispatched n (reportFailure h engine ctx response) (reportFailure h other ctx response) := by
  unfold reportFailure
  split
  · exact Eff.spends_pure _
  · rename_i cfg configured
    refine Eff.spends_before (Eff.spends_attempt ?_) fun _ => Eff.spends_pure _
    refine consult_spends (Q := fun loaded => loaded = some tree.dsls) budget.serves.dsls fun loaded eq => ?_
    subst eq
    dsimp only
    split
    · exact Eff.spends_throw _
    · rename_i found
      exact isolated_spends (budget.run _ (calls.1 cfg configured _ found) _)

theorem executeHttpWith_spends (budget : Budget h client tree callable engine other depth peers n)
    (calls : (DslStep.http s).CallsDirectly h client tree callable)
    (sent : ∀ request, Eff.Spends dispatched (callPrice client tree n request) (send request) (send' request)) :
    Eff.Spends dispatched ((tree.guardCount + 1) * n + n) (executeHttpWith h engine ctx send s)
      (executeHttpWith h other ctx send' s) := by
  unfold executeHttpWith
  split
  · exact Eff.spends_throw _
  · refine Eff.spends_after (free_of_frame fun _ frame => resolveArgs_keeps frame fun _ _ => trivial)
      fun args => ?_
    refine Eff.spends_bind ((sent _).mono callPrice_le) fun answer => ?_
    refine Eff.spends_after ofExcept_free fun response => ?_
    refine Eff.spends_after bindResult_free fun _ => ?_
    split
    · exact Eff.spends_pure _
    · split
      · exact Eff.spends_pure _
      · split
        · exact Eff.spends_pure _
        · exact Eff.spends_before (reportFailure_spends budget calls) fun _ => Eff.spends_throw _

theorem executeParallelHttpWith_spends
    (sent : ∀ requests, Eff.Spends dispatched n (sendAll requests) (sendAll' requests)) :
    Eff.Spends dispatched n (executeParallelHttpWith h ctx sendAll s)
      (executeParallelHttpWith h ctx sendAll' s) := by
  refine Eff.spends_after (free_of_frame fun _ frame => frame.evaluates trivial) fun evaluated => ?_
  refine Eff.spends_after ofExcept_free fun peers => ?_
  split
  · exact Eff.spends_after (free_of_frame fun _ frame => frame.setVariable) fun _ => Eff.spends_pure _
  · split
    · exact Eff.spends_throw _
    · refine Eff.spends_after (free_of_frame fun _ frame => Eff.keeps_collect fun peer _ => ?_) fun resolved => ?_
      · exact Eff.keeps_bind frame.setVariable fun _ =>
          Eff.keeps_bind (resolveArgs_keeps frame fun _ _ => trivial) fun _ => Eff.keeps_pure _
      refine Eff.spends_before (sent _) fun outcomes => ?_
      refine Eff.spends_after consult_free fun order => ?_
      refine Eff.spends_after (free_of_frame fun _ frame => aggregated_keeps frame fun _ _ => trivial)
        fun collected => ?_
      exact Eff.spends_after (free_of_frame fun _ frame => frame.setVariable) fun _ => Eff.spends_pure _

theorem executeTemplate_spends (budget : Budget h client tree callable engine other depth peers n)
    (calls : (DslStep.template s).CallsDirectly h client tree callable) :
    Eff.Spends dispatched ((tree.guardCount + 1) * n) (executeTemplate h engine ctx s)
      (executeTemplate h other ctx s) := by
  rw [Nat.succ_mul]
  obtain ⟨targets,guards⟩ := calls ctx.project
  refine consult_spends (Q := fun loaded => loaded = some tree.dsls) budget.serves.dsls fun loaded eq => ?_
  subst eq
  dsimp only
  split
  · exact Eff.spends_throw _
  · rename_i target found
    have argument : ∀ name arg, Eff.Spends dispatched 0 (evaluateMapArg h ctx "template" name arg)
        (evaluateMapArg h ctx "template" name arg) :=
      fun _ _ => free_of_frame fun _ frame => evaluateMapArg_keeps frame fun _ _ => trivial
    refine Eff.spends_after (argument _ _) fun body => ?_
    refine Eff.spends_after (argument _ _) fun query => ?_
    refine Eff.spends_after (argument _ _) fun headers => ?_
    refine consult_spends (Q := fun chain => chain = applicableGuards tree.guards h.guardsMode ctx.project _)
      (fun now => by rw [budget.serves.guards now]) ?_
    rintro _ rfl
    refine Eff.spends_before (inChild_spends (guarded_spends (fun _ guard => budget.run _ (guards _ guard) _)
      raise_spends (budget.run target (targets target found) _))) fun result => ?_
    exact Eff.spends_after bindResult_free fun _ => Eff.spends_pure _

theorem runBody_spends (budget : Budget h client tree callable engine other depth peers n) {steps : List DslStep}
    (fits : ∀ step ∈ steps, step.Fits h client tree callable depth) :
    Eff.Spends dispatched (bodyWeight steps * tree.stepPrice peers n) (runBody engine ctx steps)
      (runBody other ctx steps) := by
  rw [← bodyWeight_sum]
  refine Eff.spends_firstM fun step member => ?_
  exact Eff.spends_before (budget.step step ctx (fits step member)) fun _ => Eff.spends_pure _

theorem iterateItems_spends (budget : Budget h client tree callable engine other depth peers n)
    {b : IterateBody DslStep} (fits : ∀ step ∈ b.body, step.Fits h client tree callable depth)
    (items : List Json) :
    Eff.Spends dispatched (items.length * (bodyWeight b.body * tree.stepPrice peers n))
      (iterateItems h engine ctx b items) (iterateItems h other ctx b items) := by
  induction items with
  | nil => exact Eff.spends_pure _
  | cons item rest ih =>
    rw [List.length_cons,Nat.succ_mul,Nat.add_comm]
    refine Eff.spends_after (free_of_frame fun _ frame => frame.setVariable) fun _ => ?_
    refine Eff.spends_bind (runBody_spends budget fits) fun early => ?_
    cases early with
    | some result => exact Eff.spends_pure _
    | none =>
      refine Eff.spends_after (free_of_frame fun _ frame => evaluateOption_keeps frame fun _ _ => trivial)
        fun value => ?_
      refine Eff.spends_before ih fun later => ?_
      cases later with
      | inl early => exact Eff.spends_pure _
      | inr later => exact Eff.spends_pure _

theorem executeIterate_spends (budget : Budget h client tree callable engine other depth peers n)
    {s : IterateStep DslStep} (fits : ∀ step ∈ s.iterate.body, step.Fits h client tree callable depth) :
    Eff.Spends dispatched ((s.iterate.maxItems.getD defaultMaxItems).toNat *
      (bodyWeight s.iterate.body * tree.stepPrice peers n)) (executeIterate h engine ctx s)
      (executeIterate h other ctx s) := by
  refine Eff.spends_after (free_of_frame fun _ frame => frame.evaluates trivial) fun list => ?_
  split
  · rename_i items
    dsimp only
    split
    · exact Eff.spends_throw _
    · rename_i within
      refine Eff.spends_before ((iterateItems_spends budget fits items).mono ?_) fun ended => ?_
      · exact Nat.mul_le_mul_right _ (by omega)
      · cases ended with
        | inl early => exact Eff.spends_pure _
        | inr collected => exact Eff.spends_after bindResult_free fun _ => Eff.spends_pure _
  · exact Eff.spends_throw _

theorem executeDetach_spends (budget : Budget h client tree callable engine other depth peers n)
    {s : DetachStep DslStep} (fits : ∀ step ∈ s.detach.body, step.Fits h client tree callable depth) :
    Eff.Spends dispatched (bodyWeight s.detach.body * tree.stepPrice peers n) (executeDetach h engine ctx s)
      (executeDetach h other ctx s) := by
  unfold executeDetach
  dsimp only
  split
  · exact Eff.spends_throw _
  · refine Eff.spends_after consult_free fun outcome => ?_
    cases outcome with
    | noRegistry => exact Eff.spends_throw _
    | overflow cap => exact Eff.spends_throw _
    | spawned cutOff =>
      refine Eff.spends_after get_free fun now => ?_
      refine Eff.spends_before (Eff.spends_attempt (isolated_spends ?_)) fun _ => Eff.spends_pure _
      exact (runBody_spends budget fun step member => fits step (List.mem_of_mem_take member)).mono
        (Nat.mul_le_mul_right _ (bodyWeight_take _ _))

theorem executeSingleFlight_spends (budget : Budget h client tree callable engine other depth peers n)
    {s : SingleFlightStep DslStep}
    (fits : ∀ step ∈ s.singleFlight.body, step.Fits h client tree callable depth) :
    Eff.Spends dispatched (bodyWeight s.singleFlight.body * tree.stepPrice peers n)
      (executeSingleFlight h engine ctx s) (executeSingleFlight h other ctx s) := by
  refine Eff.spends_after (free_of_frame fun _ frame => evaluateKey_keeps frame trivial) fun key => ?_
  refine Eff.spends_after consult_free fun role => ?_
  split
  · refine Eff.spends_before (Eff.spends_attempt (runBody_spends budget fits)) fun ended => ?_
    refine Eff.spends_after get_free fun now => ?_
    refine Eff.spends_after (free_of_frame fun _ frame => frame.emits trivial) fun _ => ?_
    refine Eff.spends_after ofExcept_free fun early => ?_
    cases early with
    | some result => exact Eff.spends_pure _
    | none => exact Eff.spends_pure _
  · refine Eff.spends_after (free_of_frame fun _ frame => bindReceived_keeps frame) fun _ => ?_
    exact Eff.spends_pure _
  · exact Eff.spends_throw _
  · exact Eff.spends_throw _
  · exact Eff.spends_throw _

/-- The price of a step is that of its own dispatch and of what follows. -/
theorem weight_mul_price (inner : Nat) :
    1 + ((peers + 1) * ((tree.guardCount + 1) * n) + n + inner * tree.stepPrice peers n) =
      (1 + inner) * tree.stepPrice peers n := by
  have own : (1 + inner) * tree.stepPrice peers n = tree.stepPrice peers n + inner * tree.stepPrice peers n := by
    rw [Nat.add_mul,Nat.one_mul]
  have price : tree.stepPrice peers n = 1 + ((peers + 1) * ((tree.guardCount + 1) * n) + n) := rfl
  omega

/-- A step is paid for by its weight: its own dispatch with the runs it starts, and its bodies. -/
theorem routedStep_spends (budget : Budget h client tree callable engine other depth peers n)
    (sent : (client.selfOrigins ≠ [] → ∀ dsl ∈ tree.members, callable dsl) → ∀ request,
      Eff.Spends dispatched (callPrice client tree n request) (send request) (send' request))
    (allSent : (client.selfOrigins ≠ [] → ∀ dsl ∈ tree.members, callable dsl) → ∀ requests,
      Eff.Spends dispatched (peers * ((tree.guardCount + 1) * n)) (sendAll requests) (sendAll' requests))
    (step : DslStep) (fits : step.Fits h client tree callable (depth + 1)) :
    Eff.Spends dispatched (step.weight * tree.stepPrice peers n) (routedStep h send sendAll engine step ctx)
      (routedStep h send' sendAll' other step ctx) := by
  have dispatch : Eff.Spends dispatched 1 (emit (.dispatched step)) (emit (.dispatched step)) := by
    intro s
    simp [dispatched,dispatches,emit,Eff.modify,List.countP_append]
  have pays : ∀ inner, step.weight = 1 + inner → ∀ m m' : M StepResult,
      Eff.Spends dispatched ((peers + 1) * ((tree.guardCount + 1) * n) + n + inner * tree.stepPrice peers n) m m' →
      Eff.Spends dispatched (step.weight * tree.stepPrice peers n) (emit (.dispatched step) >>= fun _ => m)
        (emit (.dispatched step) >>= fun _ => m') := by
    intro inner weight m m' spent
    rw [weight,← weight_mul_price]
    exact Eff.spends_bind dispatch fun _ => spent
  have calls : (peers + 1) * ((tree.guardCount + 1) * n) =
      peers * ((tree.guardCount + 1) * n) + (tree.guardCount + 1) * n := Nat.succ_mul _ _
  have own : step.CallsDirectly h client tree callable := fits.calls step step.mem_flatten
  cases step with
  | http s =>
    refine pays 0 (by simp [DslStep.weight]) _ _ ((executeHttpWith_spends budget own (sent own.2)).mono ?_)
    omega
  | template s =>
    refine pays 0 (by simp [DslStep.weight]) _ _ ((executeTemplate_spends budget own).mono ?_)
    omega
  | parallelHttp s =>
    refine pays 0 (by simp [DslStep.weight]) _ _ ((executeParallelHttpWith_spends (allSent own)).mono ?_)
    omega
  | iterate s =>
    have inside := fits.body s.iterate.body (by rw [DslStep.flatten]) (by rw [DslStep.depth])
    refine pays _ (weight_iterate s) _ _ ((executeIterate_spends budget inside).mono ?_)
    rw [Nat.mul_assoc]
    omega
  | detach s =>
    have inside := fits.body s.detach.body (by rw [DslStep.flatten]) (by rw [DslStep.depth])
    refine pays _ (weight_detach s) _ _ ((executeDetach_spends budget inside).mono ?_)
    omega
  | singleFlight s =>
    have inside := fits.body s.singleFlight.body (by rw [DslStep.flatten]) (by rw [DslStep.depth])
    refine pays _ (weight_singleFlight s) _ _ ((executeSingleFlight_spends budget inside).mono ?_)
    omega
  -- Every other step starts no run.
  | _ =>
    refine pays 0 (by simp [DslStep.weight]) _ _ (Eff.Spends.mono (free_of_frame ?_) (Nat.zero_le _))
    exact fun _ frame => executeLeaf_keeps frame trivial (fun _ _ => trivial) (.inl fun _ => trivial)

end Executors

section Run
variable {h : Host} {execute execute' : DslStep → Ctx → M StepResult} {dsl : Dsl} {ctx : Ctx} {n : Nat}

theorem takeStep_spends (spent : Eff.Spends dispatched n (execute step ctx) (execute' step ctx)) :
    Eff.Spends dispatched n (takeStep execute dsl ctx name step index)
      (takeStep execute' dsl ctx name step index) := by
  refine Eff.spends_after (free_of_frame fun _ frame => sleepFor_keeps frame) fun _ => ?_
  refine Eff.spends_before ?_ fun result => ?_
  · unfold perform
    split
    · exact Eff.spends_pure _
    · exact Eff.spends_mapError spent
  · split
    · exact Eff.spends_pure _
    · exact free_of_frame fun _ frame => Eff.keeps_bind (triggerReload_keeps frame) fun _ => followNext_keeps

theorem runLoop_spends (spent : ∀ name step, dsl.getStep name = some step →
    Eff.Spends dispatched n (execute step ctx) (execute' step ctx)) :
    Eff.Spends dispatched (budget * n) (runLoop h execute dsl ctx budget index recursions)
      (runLoop h execute' dsl ctx budget index recursions) := by
  induction budget generalizing index recursions with
  | zero => exact Eff.spends_pure _
  | succ budget ih =>
    rw [Nat.succ_mul,Nat.add_comm]
    unfold runLoop
    split
    · exact Eff.spends_pure _
    · split
      · exact Eff.spends_throw _
      · rename_i step found
        dsimp only
        split
        · exact ih.mono (by omega)
        · refine Eff.spends_bind (takeStep_spends (spent _ step found)) fun move => ?_
          cases move with
          | goto next => exact ih
          | stop ended => exact Eff.spends_pure _

theorem runToEnd_spends (spent : ∀ name step, dsl.getStep name = some step →
    Eff.Spends dispatched n (execute step ctx) (execute' step ctx)) :
    Eff.Spends dispatched (h.maxIterations.toNat * n) (runToEnd h execute dsl ctx)
      (runToEnd h execute' dsl ctx) := by
  refine Eff.spends_after ?_ fun _ => runLoop_spends spent
  intro s
  simp [dispatched,dispatches,emit,Eff.modify,List.countP_append]

/-- A run of a DSL of the tree, at the price of the runs it starts. -/
theorem run_spends {tree : Tree} {client : HttpClient} {callable : Dsl → Prop} {engine other : Engine}
    {sendAll sendAll' : List Outbound → M (List (Except RuuterError HttpResponse))}
    (budget : Budget h client tree callable engine other (bodyDepth tree.steps) peers n)
    (allSent : (client.selfOrigins ≠ [] → ∀ dsl ∈ tree.members, callable dsl) → ∀ requests,
      Eff.Spends dispatched (peers * ((tree.guardCount + 1) * n)) (sendAll requests) (sendAll' requests))
    (member : dsl ∈ tree.members)
    (calls : ∀ name step, dsl.getStep name = some step → ∀ inner ∈ step.flatten,
      inner.CallsDirectly h client tree callable) :
    Eff.Spends dispatched (h.maxIterations.toNat * (tree.weight * tree.stepPrice peers n))
      (RunEnd.result <$>
        runToEnd h (routedStep h (requestWithCt h client r engine.run tree) sendAll engine) dsl ctx)
      (RunEnd.result <$>
        runToEnd h (routedStep h (requestWithCt h client r other.run tree) sendAll' other) dsl ctx) := by
  refine Eff.spends_before (runToEnd_spends fun name step found => ?_) fun _ => Eff.spends_pure _
  have listed := step_mem member found
  have shallow := depth_le_bodyDepth listed
  exact (routedStep_spends budget (requestWithCt_budget budget) allSent step
    ⟨calls name step found,by omega⟩).mono (Nat.mul_le_mul_right _ (weight_le_bodyWeight listed))

end Run

end Ruuter
