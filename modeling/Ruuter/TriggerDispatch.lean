import Ruuter.ConstantReferences
import Ruuter.Guards
import Ruuter.Loader
import Ruuter.OpenApi
import Ruuter.Steps

/-! How the messages of a source reach trigger DSLs (`handle_text` of `src/sources/ws.rs`,
`extract_path` of `src/sources/config.rs`, `TriggerDispatcher::dispatch` of `src/triggers/mod.rs`). -/
namespace Ruuter
namespace Trigger
open Sources

section Paths
variable (h : Host)

/-- The text of a value behind a path. -/
def valueText : Json → String
  | .string s => s
  | .number n => h.jsonText (.number n)
  | .bool true => "true"
  | .bool false => "false"
  | .null => "null"
  | .array items => h.jsonText (.array items)
  | .object members => h.jsonText (.object members)

/-- `Value::get`, segment by segment. -/
def descend : Json → List String → Option Json
  | current, [] => some current
  | current, segment :: rest => (current.member? segment).bind (descend · rest)

def extractPath (payload : Json) (expr : String) : Option String := do
  let path ← Text.stripPrefix expr "$."
  let found ← descend payload (Text.split path '.')
  return valueText h found

end Paths

/-- What a DSL sees as the body. -/
def eventBody : Json → StringMap Json
  | .object members => ofMembers members
  | other => AList.singleton "value" other

section Dispatch
variable (h : Host) (run : Runner) (triggers : TriggerDsls) (project : String)

/-- Whether a DSL ran; its error is passed on. -/
def dispatch (channel key : String) (payload : Json) : M Bool :=
  match triggers.lookup (project,channel) with
  | none => pure false
  | some perKey =>
    match (perKey.lookup key).or (perKey.lookup "_default") with
    | none => pure false
    | some dsl => do
      let ctx : Ctx := { requestBody := eventBody payload, requestOrigin := channel, project }
      let _ ← isolated ∅ (run dsl ctx)
      pure true

variable (config : DispatchConfig)

def handleMessages : List Json → M Unit
  | [] => pure ()
  | msg :: rest =>
    match extractPath h msg config.channel with
    | none => handleMessages rest
    | some channel =>
      if channel.isEmpty then handleMessages rest
      else do
        let key := (extractPath h msg config.key).getD ""
        let _ ← Eff.attempt (dispatch run triggers project channel key msg)
        handleMessages rest

/-- The messages of a frame. -/
def messagesOf : Json → List Json
  | .array items => items
  | other => [other]

/-- A frame whose text does not parse is dropped with an error. -/
def handleText (fromStr : String → Except String Json) (text : String) : M Unit :=
  match fromStr text with
  | .error e => Eff.throw (.json e)
  | .ok value => handleMessages h run triggers project config (messagesOf value)

end Dispatch

section Algorithm
variable (h : Host) (triggers : TriggerDsls) (project : String) (config : DispatchConfig)

inductive Descends : Json → List String → Json → Prop
  | here : Descends value [] value
  | member {value inner found : Json} {segment : String} {rest : List String} :
      value.member? segment = some inner → Descends inner rest found → Descends value (segment :: rest) found

/-- An expression with `$.` and the text at its path. -/
def PathText (msg : Json) (expr text : String) : Prop :=
  ∃ path found, expr = "$." ++ path ∧ Descends msg (Text.split path '.') found ∧ text = valueText h found

/-- The same, where an expression without `$.` is its own text. -/
def LiteralText (msg : Json) (expr text : String) : Prop :=
  PathText h msg expr text ∨ (∀ path, expr ≠ "$." ++ path) ∧ text = expr

variable (names : Json → String → String → Prop)

/-- The channel of a message is not empty and has a DSL for its key or a default; a key that is missing
counts as the empty one. -/
inductive Planned (msg : Json) : Dsl → Ctx → Prop
  | run : names msg config.channel channel → channel ≠ "" →
      (names msg config.key key ∨ key = "" ∧ ∀ text, ¬ names msg config.key text) →
      triggers.lookup (project,channel) = some perKey →
      (perKey.lookup key = some dsl ∨ perKey.lookup key = none ∧ perKey.lookup "_default" = some dsl) →
      Planned msg dsl { requestBody := eventBody msg, requestOrigin := channel, project }

/-- The DSLs of a batch, one for each message that has one. -/
inductive Selected : List Json → List (Dsl × Ctx) → Prop
  | nil : Selected [] []
  | run : Planned triggers project config names msg dsl ctx → Selected rest plan →
      Selected (msg :: rest) ((dsl,ctx) :: plan)
  | drop : (∀ dsl ctx, ¬ Planned triggers project config names msg dsl ctx) → Selected rest plan →
      Selected (msg :: rest) plan

/-- One DSL after the other, each in a context of its own; an error ends only the run it comes from. -/
def runPlan (run : Runner) : List (Dsl × Ctx) → M Unit
  | [] => pure ()
  | (dsl,ctx) :: rest => do
    let _ ← Eff.attempt (isolated ∅ (run dsl ctx))
    runPlan run rest

end Algorithm

section Follows
variable {h : Host} {triggers : TriggerDsls} {project : String} {config : DispatchConfig} {run : Runner}

theorem descends_iff : Descends value segments found ↔ descend value segments = some found := by
  constructor
  · intro descends
    induction descends with
    | here => rfl
    | member held _ ih => rw [descend,held,Option.bind_some,ih]
  · intro descended
    induction segments generalizing value with
    | nil =>
      cases descended
      exact .here
    | cons segment rest ih =>
      obtain ⟨inner,held,later⟩ := Option.bind_eq_some_iff.mp descended
      exact .member held (ih later)

/-- The path expressions are what the extraction reads. -/
theorem pathText_iff : PathText h msg expr text ↔ extractPath h msg expr = some text := by
  unfold extractPath PathText
  simp only [Option.bind_eq_bind,Option.bind_eq_some_iff,Option.pure_def,Option.some.injEq]
  constructor
  · rintro ⟨path,found,prefixed,descends,rfl⟩
    exact ⟨path,Text.stripPrefix_iff.mpr prefixed,found,descends_iff.mp descends,rfl⟩
  · rintro ⟨path,prefixed,found,descended,rfl⟩
    exact ⟨path,found,Text.stripPrefix_iff.mp prefixed,descends_iff.mpr descended,rfl⟩

theorem keyText_iff (msg : Json) (expr key : String) :
    (PathText h msg expr key ∨ key = "" ∧ ∀ text, ¬ PathText h msg expr text) ↔
      key = (extractPath h msg expr).getD "" := by
  simp only [pathText_iff]
  cases extracted : extractPath h msg expr with
  | none => simp
  | some text => simp [eq_comm]

/-- A run whose result is not read. -/
theorem attempt_dispatch (found : triggers.lookup (project,channel) = some perKey)
    (held : (perKey.lookup key).or (perKey.lookup "_default") = some dsl) (msg : Json) (later : M Unit) :
    (do let _ ← Eff.attempt (dispatch run triggers project channel key msg); later) = (do
      let _ ← Eff.attempt (isolated ∅ (run dsl { requestBody := eventBody msg, requestOrigin := channel, project }))
      later) := by
  have opened : dispatch run triggers project channel key msg = (do
      let _ ← isolated ∅ (run dsl { requestBody := eventBody msg, requestOrigin := channel, project })
      pure true) := by
    unfold dispatch
    simp only [found,held]
  rw [opened]
  generalize (isolated ∅ (run dsl { requestBody := eventBody msg, requestOrigin := channel, project }) : M _) = m
  have same (s : St) : (Eff.attempt (do let _ ← m; pure true) >>= fun _ => later : M Unit) s =
      (Eff.attempt m >>= fun _ => later : M Unit) s := by
    rcases ran : m s with ⟨_ | _,t⟩
    · have failed : (do let _ ← m; pure true : M Bool) s = (.error _,t) := Eff.bind_eq_error ran
      rw [Eff.bind_eq_ok (Eff.attempt_eq failed),Eff.bind_eq_ok (Eff.attempt_eq ran)]
    · have returned : (do let _ ← m; pure true : M Bool) s = (.ok true,t) := Eff.bind_eq_ok ran
      rw [Eff.bind_eq_ok (Eff.attempt_eq returned),Eff.bind_eq_ok (Eff.attempt_eq ran)]
  exact funext same

/-- Without a DSL nothing runs. -/
theorem attempt_dispatch_none (absent : ∀ perKey, triggers.lookup (project,channel) = some perKey →
    (perKey.lookup key).or (perKey.lookup "_default") = none) (msg : Json) (later : M Unit) :
    (do let _ ← Eff.attempt (dispatch run triggers project channel key msg); later) = later := by
  unfold dispatch
  split
  · rfl
  · rename_i perKey found
    rw [absent perKey found]
    rfl

/-- The DSL of a key, or the default. -/
theorem held_iff {perKey : StringMap Dsl} :
    (perKey.lookup key = some dsl ∨ perKey.lookup key = none ∧ perKey.lookup "_default" = some dsl) ↔
      (perKey.lookup key).or (perKey.lookup "_default") = some dsl := by
  cases perKey.lookup key <;> simp

/-- What the algorithm plans for a message, as the code looks it up. -/
theorem planned_iff : Planned triggers project config (PathText h) msg dsl ctx ↔ ∃ channel perKey,
    extractPath h msg config.channel = some channel ∧ channel ≠ "" ∧ triggers.lookup (project,channel) = some perKey ∧
      (perKey.lookup ((extractPath h msg config.key).getD "")).or (perKey.lookup "_default") = some dsl ∧
      ctx = { requestBody := eventBody msg, requestOrigin := channel, project } := by
  constructor
  · rintro ⟨named,nonempty,keyed,found,held⟩
    rename_i channel key perKey
    rw [(keyText_iff msg config.key key).mp keyed] at held
    exact ⟨channel,perKey,pathText_iff.mp named,nonempty,found,held_iff.mp held,rfl⟩
  · rintro ⟨channel,perKey,named,nonempty,found,held,rfl⟩
    exact .run (pathText_iff.mpr named) nonempty ((keyText_iff msg config.key _).mpr rfl) found (held_iff.mpr held)

/-- One message: its DSL runs, or it is left out. -/
theorem handleMessages_cons (msg : Json) (rest : List Json) :
    (∀ dsl ctx, Planned triggers project config (PathText h) msg dsl ctx →
      handleMessages h run triggers project config (msg :: rest) = (do
        let _ ← Eff.attempt (isolated ∅ (run dsl ctx))
        handleMessages h run triggers project config rest)) ∧
    ((∀ dsl ctx, ¬ Planned triggers project config (PathText h) msg dsl ctx) →
      handleMessages h run triggers project config (msg :: rest) =
        handleMessages h run triggers project config rest) := by
  constructor
  · intro dsl ctx planned
    obtain ⟨channel,perKey,named,nonempty,found,held,rfl⟩ := planned_iff.mp planned
    have filled : channel.isEmpty = false := by simpa using nonempty
    rw [handleMessages,named]
    simp only [filled,Bool.false_eq_true,if_false]
    exact attempt_dispatch found held msg _
  · intro absent
    rw [handleMessages]
    split
    · rfl
    · rename_i channel named
      split
      · rfl
      · rename_i nonempty
        apply attempt_dispatch_none
        intro perKey found
        cases held : (perKey.lookup ((extractPath h msg config.key).getD "")).or (perKey.lookup "_default") with
        | none => rfl
        | some dsl =>
          have filled : channel ≠ "" := by simpa using nonempty
          exact absurd (planned_iff.mpr ⟨channel,perKey,named,filled,found,held,rfl⟩) (absent dsl _)

/-- The loop runs the plan of a batch, whatever the runs do. -/
theorem handleMessages_eq (selected : Selected triggers project config (PathText h) messages plan) (run : Runner) :
    handleMessages h run triggers project config messages = runPlan run plan := by
  induction selected with
  | nil => rfl
  | run planned _ ih => rw [(handleMessages_cons _ _).1 _ _ planned,ih,runPlan]
  | drop absent _ ih => rw [(handleMessages_cons _ _).2 absent,ih]

theorem exists_selected (names : Json → String → String → Prop) (messages : List Json) :
    ∃ plan, Selected triggers project config names messages plan := by
  induction messages with
  | nil => exact ⟨[],.nil⟩
  | cons msg rest ih =>
    obtain ⟨plan,selected⟩ := ih
    by_cases planned : ∃ dsl ctx, Planned triggers project config names msg dsl ctx
    · obtain ⟨dsl,ctx,planned⟩ := planned
      exact ⟨(dsl,ctx) :: plan,.run planned selected⟩
    · exact ⟨plan,.drop (fun dsl ctx held => planned ⟨dsl,ctx,held⟩) selected⟩

/-- A frame that is no JSON runs nothing. Of any other frame the planned DSLs run, one after the other and
nothing else; the plan does not depend on what they do. -/
theorem handleText_follows (h : Host) (triggers : TriggerDsls) (project : String) (config : DispatchConfig)
    (fromStr : String → Except String Json) (text : String) :
    (∀ e, fromStr text = .error e → ∀ run, handleText h run triggers project config fromStr text = Eff.throw (.json e)) ∧
    ∀ value, fromStr text = .ok value →
      (∃ plan, Selected triggers project config (PathText h) (messagesOf value) plan) ∧
      ∀ plan, Selected triggers project config (PathText h) (messagesOf value) plan →
        ∀ run, handleText h run triggers project config fromStr text = runPlan run plan := by
  refine ⟨fun e failed run => by rw [handleText,failed],fun value parsed => ⟨exists_selected _ _,?_⟩⟩
  intro plan selected run
  rw [handleText,parsed]
  exact handleMessages_eq selected run

end Follows

section Literal

/-- A source whose messages all belong to one channel. -/
def literalConfig : DispatchConfig where
  channel := "bars"
  key := "$.S"

def barTriggers : TriggerDsls := AList.singleton ("svc","bars") (AList.singleton "_default" ⟨∅⟩)

/-- A DSL run that shows in the trace. -/
def tracedRunner : Runner := fun dsl _ => do
  emit (.entered dsl)
  pure {}

/-- A channel without `$.` names no channel: the documented run does not take place. -/
theorem literal_channel_dropped :
    (∃ ctx, Selected barTriggers "svc" literalConfig (LiteralText {}) [.object []] [(⟨∅⟩,ctx)] ∧
      (runPlan tracedRunner [(⟨∅⟩,ctx)] {}).2.trace.length = 1) ∧
    (handleText {} tracedRunner barTriggers "svc" literalConfig (fun _ => .ok (.object [])) "\x7b\x7d" {}).2.trace.length = 0 ∧
    ¬ ∀ (h : Host) triggers project config (fromStr : String → Except String Json) text value plan run,
      fromStr text = .ok value → Selected triggers project config (LiteralText h) (messagesOf value) plan →
        handleText h run triggers project config fromStr text = runPlan run plan := by
  have noPrefix : ∀ path : String, "bars" ≠ "$." ++ path := by
    intro path same
    have first := congrArg (fun s : String => s.toList.head?) same
    simp only [String.toList_append,List.head?_append] at first
    cases first
  have noKey : ∀ text, ¬ LiteralText ({} : Host) (.object []) "$.S" text := by
    rintro text (named | ⟨other,_⟩)
    · cases pathText_iff.mp named
    · exact other "S" rfl
  have planned : Planned barTriggers "svc" literalConfig (LiteralText {}) (.object []) ⟨∅⟩
      { requestBody := eventBody (.object []), requestOrigin := "bars", project := "svc" } :=
    .run (.inr ⟨noPrefix,rfl⟩) (by decide) (.inr ⟨rfl,noKey⟩) rfl (.inr ⟨rfl,rfl⟩)
  refine ⟨⟨_,.run planned .nil,rfl⟩,rfl,fun claimed => ?_⟩
  have same := claimed {} barTriggers "svc" literalConfig (fun _ => .ok (.object [])) "" (.object []) _ tracedRunner rfl
    (.run planned .nil)
  have lengths := congrArg (fun m => (m ({} : St)).2.trace.length) same
  cases lengths

end Literal

end Trigger
end Ruuter
