import Std.Data.String.ToNat
import Ruuter.ExpressionRegistry
import Ruuter.ScriptBindings
import Ruuter.ScriptResults

/-! The session of a request under QuickJS (`src/scripting/quickjs.rs`): registered scripts are compiled
once to functions of the global object and called by their ids from then on. -/
namespace Ruuter

section Undeclared

def isQuoteMark (c : Char) : Bool := c = '\x27' || c = '\x22' || c = '\x60'

def isIdentifierStart (c : Char) : Bool := c.isAlpha || c = '_' || c = '$'

def dropQuoteMark : List Char → List Char
  | c :: rest => if isQuoteMark c then rest else c :: rest
  | [] => []

/-- The identifier at the front of a text. -/
def frontIdentifier : List Char → Option (String × List Char)
  | c :: rest =>
    let more (c : Char) : Bool := isIdentifierStart c || c.isDigit
    if isIdentifierStart c then some (String.ofList (c :: rest.takeWhile more),rest.dropWhile more) else none
  | [] => none

/-- `X is not defined`, with or without quotation marks around the name. -/
def notDefinedPattern (text : List Char) : Option String := do
  let (name,rest) ← frontIdentifier (dropQuoteMark text)
  if " is not defined".toList.isPrefixOf (dropQuoteMark rest) then some name else none

def identifierPattern (text : List Char) : Option String :=
  if "identifier ".toList.isPrefixOf text then (frontIdentifier (dropQuoteMark (text.drop 11))).map (·.1) else none

def missingBindingPattern (text : List Char) : Option String :=
  if "missing binding for ".toList.isPrefixOf text then (frontIdentifier (text.drop 20)).map (·.1) else none

/-- The leftmost match of a pattern. -/
def leftmost (pattern : List Char → Option String) : List Char → Option String
  | [] => pattern []
  | c :: rest => (pattern (c :: rest)).or (leftmost pattern rest)

def extractUndeclaredIdentifier (msg : String) : Option String :=
  if Text.contains (Text.toAsciiLowercase msg) "reference" then
    [notDefinedPattern,identifierPattern,missingBindingPattern].findSome? fun pattern => leftmost pattern msg.toList
  else none

example : extractUndeclaredIdentifier "ReferenceError: 'platform' is not defined" = some "platform" := by decide +kernel

end Undeclared

namespace QuickJs

/-- The name of the function of an id. -/
def fnName (id : Nat) : String := "__fn_" ++ toString id

/-- The global object of a session: its values, and the functions that scripts were compiled to. A
function stands before a value of its name. -/
structure Globals where
  values : Scripting.Globals := { incoming := .undefined }
  functions : StringMap String := ∅

/-- The value that took the place of the global object under its name `globalThis`. -/
def Globals.replaced (g : Globals) : Option JsValue := g.values.vars.lookup "globalThis"

/-- An assignment to a name takes away the function of that name. -/
def Globals.written (g : Globals) (name : String) (values : Scripting.Globals) : Globals :=
  { values, functions := if g.replaced.isNone then g.functions.erase name else g.functions }

/-- How a call ends: with the value of the script, or with the name and the message of an exception. -/
inductive Completion
  | value (v : JsValue)
  | thrown (name message : String)

/-- What is called: the function that a script was compiled to, or the script where it stands. -/
inductive Callee
  | function (script : String)
  | inline (script : String)

def Callee.script : Callee → String
  | .function script | .inline script => script

/-- The interpreter: what scripts give and what they do to the global object. A text that is no
expression can close the definition it is put into, `splice` is what is left of that definition. -/
structure Interpreter extends Scripting.Interpreter, Scripting.JsonReader where
  jsonText : Json → String
  isExpression : String → Bool
  splice : Nat → String → Globals → Except String Unit × Globals
  setFunction : JsValue → String → String → Except String JsValue
  eval : Callee → Globals → Except String Completion × Globals
  callOther : String → Globals → Except String Completion

/-- A call by an id: the script it is for, and what the function there was compiled from. -/
structure Call where
  script : String
  id : Nat
  function : Option String

/-- `QuickJsSession`, and the calls by id so far. -/
structure Session where
  compiledFlags : List Bool
  globals : Globals := {}
  calls : List Call := []

def Session.new (registry : ExpressionRegistry) : Session :=
  { compiledFlags := List.replicate registry.len false }

abbrev SessionM := Eff Session RuuterError

def maxUndeclaredRetries : Nat := 16

section Run
variable (i : Interpreter) (registry : ExpressionRegistry)

/-- `globalThis.__fn_<id> = function(){ return (<script>); };` -/
def defineFunction (id : Nat) (script : String) (g : Globals) : Except String Unit × Globals :=
  if i.isExpression script then
    match g.replaced with
    | some target =>
      match i.setFunction target (fnName id) script with
      | .ok held => (.ok (),{ g with values := g.values.bind "globalThis" held })
      | .error e => (.error e,g)
    | none => (.ok (),{ g with functions := g.functions.insert (fnName id) script })
  else i.splice id script g

/-- The definition at the first use in a session. -/
def compileOnce (id : Nat) (script : String) : SessionM Unit := fun s =>
  if s.compiledFlags[id]? = some true then (.ok (),s)
  else
    match defineFunction i id script s.globals with
    | (.ok _,globals) => (.ok (),{ s with globals, compiledFlags := s.compiledFlags.set id true })
    | (.error e,globals) => (.error (.scriptEvaluation ("qjs eval (define): " ++ e)),{ s with globals })

/-- `__fn_<id>.call(globalThis)` -/
def callFunction (id : Nat) (script : String) : SessionM (Except String Completion) := fun s =>
  let function := s.globals.functions.lookup (fnName id)
  let calls := s.calls ++ [{ script, id, function }]
  match function with
  | some body =>
    match i.eval (.function body) s.globals with
    | (result,globals) => (.ok result,{ s with globals, calls })
  | none => (.ok (i.callOther (fnName id) s.globals),{ s with calls })

/-- `(function(){ return (<script>); }).call(globalThis)` -/
def callInline (script : String) : SessionM (Except String Completion) := fun s =>
  match i.eval (.inline script) s.globals with
  | (result,globals) => (.ok result,{ s with globals })

/-- `globalThis[<ident>] = undefined;` -/
def declare (ident : String) : SessionM Unit := fun s =>
  match s.globals.values.assign i.toInterpreter ident .undefined with
  | .ok values => (.ok (),{ s with globals := s.globals.written ident values })
  | .error e => (.error (.scriptEvaluation ("qjs eval (declare): " ++ e)),s)

/-- The loop of `execute_js`, with the turns that are left. -/
def retry (script : String) (call : SessionM (Except String Completion)) : Nat → SessionM Json
  | 0 => Eff.throw (.scriptEvaluation ("expression exceeded undeclared-identifier retry cap (" ++
      toString maxUndeclaredRetries ++ "): " ++ script))
  | turns + 1 => do
    match ← call with
    | .error e => Eff.throw (.scriptEvaluation ("qjs eval: " ++ e))
    | .ok (.value v) =>
      match Scripting.quickjsJson i.toJsonReader v with
      | .ok json => pure json
      | .error e => Eff.throw e
    | .ok (.thrown name message) =>
      let full := name ++ ": " ++ message
      match if name = "ReferenceError" then extractUndeclaredIdentifier full else none with
      | some ident => do
        declare i ident
        retry script call turns
      | none => Eff.throw (.scriptEvaluation ("qjs eval: " ++ full))

def executeJs (script : String) : SessionM Json :=
  match registry.idFor script with
  | some id => do
    compileOnce i id script
    retry i script (callFunction i id script) (maxUndeclaredRetries + 1)
  | none => retry i script (callInline i script) (maxUndeclaredRetries + 1)

/-- What a value becomes inside a mixed string. -/
def interpolated : Json → String
  | .string text => text
  | .null => ""
  | other => i.jsonText other

def interpolate (text : String) : List Segment → (cursor : Nat) → (out : String) → Option RuuterError →
    SessionM Json
  | [], cursor, out, failed =>
    match failed with
    | some e => Eff.throw e
    | none => pure (.string (out ++ Text.slice text cursor text.utf8ByteSize))
  | segment :: rest, cursor, out, failed => do
    let out := out ++ Text.slice text cursor segment.start
    match ← Eff.attempt (executeJs i registry segment.inner) with
    | .ok value =>
      let value := suppressOptionalNull value segment.inner
      interpolate text rest segment.stop (out ++ interpolated i value) failed
    | .error e =>
      interpolate text rest segment.stop (out ++ Text.slice text segment.start segment.stop) (failed.or (some e))

def evaluateString (text : String) : SessionM Json :=
  match wholeExpression text with
  | some inner => do
    let value ← executeJs i registry inner
    pure (suppressOptionalNull value inner)
  | none => interpolate i registry text (findScriptSegments text) 0 "" none

mutual

def evaluateWith : Json → SessionM Json
  | .string text => evaluateString i registry text
  | .array items => do
    let items ← evaluateItems items
    pure (.array items)
  | .object members => do
    let members ← evaluateMembers members
    pure (.object members)
  | .null => pure .null
  | .bool b => pure (.bool b)
  | .number n => pure (.number n)

def evaluateItems : List Json → SessionM (List Json)
  | [] => pure []
  | item :: rest => do
    let item ← evaluateWith item
    let rest ← evaluateItems rest
    pure (item :: rest)

def evaluateMembers : List (String × Json) → SessionM (List (String × Json))
  | [] => pure []
  | (key,value) :: rest => do
    let value ← evaluateWith value
    let rest ← evaluateMembers rest
    pure ((key,value) :: rest)

end

def bindVariable (name : String) (value : Json) : SessionM Unit := fun s =>
  match Scripting.Backend.quickjs.bindVariable i.toInterpreter s.globals.values name value with
  | .ok values => (.ok (),{ s with globals := s.globals.written name values })
  | .error e => (.error e,s)

def bindVariables : List (Sigma fun _ : String => Json) → SessionM Unit
  | [] => pure ()
  | entry :: rest => do
    bindVariable i entry.1 entry.2
    bindVariables rest

def setupBindings (ctx : Ctx) (vars : StringMap Json) : SessionM Unit := do
  bindVariable i "incoming" (Scripting.Backend.incoming ctx)
  bindVariables i vars.entries

/-- One call of `evaluate` on the context of the session. -/
structure Evaluation where
  ctx : Ctx
  vars : StringMap Json
  input : Json

def evaluate (e : Evaluation) : SessionM Json :=
  if hasExpressions e.input then do
    setupBindings i e.ctx e.vars
    evaluateWith i registry e.input
  else pure e.input

/-- The session after a sequence of evaluations, whatever they gave. -/
def sessionAfter : List Evaluation → Session → Session
  | [], s => s
  | e :: rest, s => sessionAfter rest (evaluate i registry e s).2

end Run

section Names
variable {registry : ExpressionRegistry} {name : String} {before after g : Globals}

theorem fnName_inj (same : fnName a = fnName b) : a = b := by
  have digits : (toString a).toList = (toString b).toList := by
    have texts := congrArg String.toList same
    rw [fnName,fnName,String.toList_append,String.toList_append] at texts
    exact List.append_cancel_left texts
  exact Nat.repr_injective (String.toList_inj.mp digits)

/-- The names the compiled functions rest on. -/
def Reserved (registry : ExpressionRegistry) (name : String) : Prop :=
  name = "globalThis" ∨ ∃ id < registry.len, name = fnName id

/-- The functions are the same, and `globalThis` still is the global object. -/
structure Globals.Spared (registry : ExpressionRegistry) (before after : Globals) : Prop where
  replaced : before.replaced = none → after.replaced = none
  functions : ∀ id < registry.len, after.functions.lookup (fnName id) = before.functions.lookup (fnName id)

theorem spared_refl (registry : ExpressionRegistry) (g : Globals) : g.Spared registry g where
  replaced free := free
  functions _ _ := rfl

theorem assign_replaced {i : Scripting.Interpreter} {g after : Scripting.Globals} (free : g.vars.lookup "globalThis" = none)
    (other : name ≠ "globalThis") (done : g.assign i name value = .ok after) : after.vars.lookup "globalThis" = none := by
  unfold Scripting.Globals.assign at done
  simp only [free] at done
  split_ifs at done with special proto
  · cases done
    exact free
  · split at done <;> cases done <;> exact free
  · cases done
    simpa [Scripting.Globals.bind,List.lookup_cons,beq_false_of_ne (Ne.symm other)] using free

/-- An assignment to another name. -/
theorem spared_written {i : Scripting.Interpreter} {values : Scripting.Globals} (other : ¬ Reserved registry name)
    (done : g.values.assign i name value = .ok values) : g.Spared registry (g.written name values) where
  replaced free := assign_replaced free (fun same => other (.inl same)) done
  functions id inside := by
    have apart : fnName id ≠ name := fun same => other (.inr ⟨id,inside,same.symm⟩)
    unfold Globals.written
    dsimp only
    split
    · exact AList.lookup_erase_ne apart
    · rfl

end Names

section Sound
variable {i : Interpreter} {registry : ExpressionRegistry} {s : Session} {script : String} {g : Globals} {id : Nat}

/-- A call does not report a reserved name as undeclared. -/
def Harmless (registry : ExpressionRegistry) (result : Except String Completion) : Prop :=
  ∀ message ident, result = .ok (.thrown "ReferenceError" message) →
    extractUndeclaredIdentifier ("ReferenceError" ++ ": " ++ message) = some ident → ¬ Reserved registry ident

/-- The script is one expression or has no definition, and it leaves the functions alone. -/
structure Interpreter.Spares (i : Interpreter) (registry : ExpressionRegistry) (script : String) : Prop where
  eval : ∀ callee : Callee, callee.script = script → ∀ g,
    g.Spared registry (i.eval callee g).2 ∧ Harmless registry (i.eval callee g).1
  splice : i.isExpression script = false → ∀ id g,
    (i.splice id script g).1 ≠ .ok () ∧ g.Spared registry (i.splice id script g).2

/-- A call by an id calls what was compiled from its script, and has a flag. -/
def Call.Exact (registry : ExpressionRegistry) (flags : List Bool) (call : Call) : Prop :=
  registry.idFor call.script = some call.id ∧ call.id < flags.length ∧ call.function = some call.script

/-- Every flag that is set stands for a function compiled from the source of its id. -/
structure Session.Coherent (registry : ExpressionRegistry) (s : Session) : Prop where
  flags : s.compiledFlags.length = registry.len
  global : s.globals.replaced = none
  compiled : ∀ id source, registry.idFor source = some id → s.compiledFlags[id]? = some true →
    s.globals.functions.lookup (fnName id) = some source
  calls : ∀ call ∈ s.calls, call.Exact registry s.compiledFlags

theorem coherent_new (registry : ExpressionRegistry) : (Session.new registry).Coherent registry where
  flags := List.length_replicate
  global := rfl
  compiled id source _ set := by
    obtain ⟨_,unset⟩ := List.getElem?_eq_some_iff.mp set
    simp [Session.new] at unset
  calls call member := by cases member

theorem Session.Coherent.spared (coherent : s.Coherent registry) (consistent : registry.Consistent)
    (spared : s.globals.Spared registry g) : Session.Coherent registry { s with globals := g } where
  flags := coherent.flags
  global := spared.replaced coherent.global
  compiled id source known set := (spared.functions id (consistent.lt known)).trans (coherent.compiled id source known set)
  calls := coherent.calls

theorem declare_keeps (consistent : registry.Consistent) (other : ¬ Reserved registry ident) :
    Eff.Keeps (Session.Coherent registry) (declare i ident) := by
  intro s coherent
  unfold declare
  split
  · rename_i values done
    exact coherent.spared consistent (spared_written other done)
  · exact coherent

theorem bindVariable_keeps (consistent : registry.Consistent) (other : ¬ Reserved registry name) :
    Eff.Keeps (Session.Coherent registry) (bindVariable i name value) := by
  intro s coherent
  unfold bindVariable
  split
  · rename_i values done
    unfold Scripting.Backend.bindVariable at done
    simp only [Scripting.stringLiteralValue_jsStringLiteral] at done
    split at done
    · cases done
    · exact coherent.spared consistent (spared_written other (Scripting.mapError_ok.mp done))
    · exact coherent.spared consistent (spared_written other (Scripting.mapError_ok.mp done))
  · exact coherent

/-- The definition binds the function of the id and leaves the others. -/
theorem compileOnce_coherent (consistent : registry.Consistent) (spares : i.Spares registry script)
    (known : registry.idFor script = some id) (coherent : s.Coherent registry) :
    (compileOnce i id script s).2.Coherent registry ∧
      ∀ a t, compileOnce i id script s = (.ok a,t) → t.compiledFlags[id]? = some true := by
  unfold compileOnce
  by_cases set : s.compiledFlags[id]? = some true
  · rw [if_pos set]
    refine ⟨coherent,?_⟩
    intro a t done
    cases done
    exact set
  · rw [if_neg set]
    unfold defineFunction
    by_cases expression : i.isExpression script = true
    · simp only [expression,if_true,coherent.global]
      have inside : id < s.compiledFlags.length := coherent.flags ▸ consistent.lt known
      refine ⟨⟨?_,coherent.global,?_,?_⟩,?_⟩
      · simpa using coherent.flags
      · intro other source found flag
        by_cases same : other = id
        · subst same
          rw [AList.lookup_insert,consistent.injective source script other found known]
        · rw [AList.lookup_insert_ne fun names => same (fnName_inj names)]
          rw [List.getElem?_set_ne (Ne.symm same)] at flag
          exact coherent.compiled other source found flag
      · intro call member
        obtain ⟨given,bound,function⟩ := coherent.calls call member
        exact ⟨given,by simpa using bound,function⟩
      · intro a t done
        cases done
        simp [inside]
    · have no := spares.splice (Bool.eq_false_iff.mpr expression) id s.globals
      simp only [expression,Bool.false_eq_true,if_false]
      rcases eq : i.splice id script s.globals with ⟨_ | _,globals⟩
      · rw [eq] at no
        refine ⟨coherent.spared consistent no.2,?_⟩
        intro a t done
        cases done
      · rw [eq] at no
        exact absurd rfl no.1

/-- The loop keeps what its calls keep. -/
theorem retry_keeps {I : Session → Prop} {call : SessionM (Except String Completion)}
    (kept : ∀ s, I s → I (call s).2 ∧ ∀ result t, call s = (.ok result,t) → Harmless registry result)
    (declared : ∀ ident, ¬ Reserved registry ident → Eff.Keeps I (declare i ident)) (turns : Nat) :
    Eff.Keeps I (retry i script call turns) := by
  induction turns with
  | zero => exact Eff.keeps_throw _
  | succ turns ih =>
    intro s holds
    obtain ⟨reached,harmless⟩ := kept s holds
    refine Eff.bind_state_of reached ?_
    intro result t done there
    cases result with
    | error e => exact there
    | ok completion =>
      cases completion with
      | value v =>
        cases eq : Scripting.quickjsJson i.toJsonReader v with
        | ok json =>
          simp only [eq]
          exact there
        | error e =>
          simp only [eq]
          exact there
      | thrown name message =>
        by_cases reference : name = "ReferenceError"
        · subst reference
          cases found : extractUndeclaredIdentifier ("ReferenceError" ++ ": " ++ message) with
          | some ident =>
            simp only [if_true,found]
            have other : ¬ Reserved registry ident := harmless _ t done message ident rfl found
            exact Eff.keeps_bind (declared ident other) (fun _ => ih) t there
          | none =>
            simp only [if_true,found]
            exact there
        · simp only [reference,if_false]
          exact there

/-- A function that is called by its id was compiled from the script. -/
theorem callFunction_coherent (consistent : registry.Consistent) (spares : i.Spares registry script)
    (known : registry.idFor script = some id) (coherent : s.Coherent registry) (set : s.compiledFlags[id]? = some true) :
    ((callFunction i id script s).2.Coherent registry ∧ (callFunction i id script s).2.compiledFlags[id]? = some true) ∧
      ∀ result t, callFunction i id script s = (.ok result,t) → Harmless registry result := by
  have compiled := coherent.compiled id script known set
  obtain ⟨spared,harmless⟩ := spares.eval (.function script) rfl s.globals
  have calls : ∀ call ∈ s.calls ++ [{ script, id, function := some script }], call.Exact registry s.compiledFlags := by
    intro call member
    rcases List.mem_append.mp member with before | last
    · exact coherent.calls call before
    · obtain rfl := List.mem_singleton.mp last
      exact ⟨known,coherent.flags ▸ consistent.lt known,rfl⟩
  have after := coherent.spared consistent spared
  have result : callFunction i id script s = (.ok (i.eval (.function script) s.globals).1,
      { s with globals := (i.eval (.function script) s.globals).2
               calls := s.calls ++ [{ script, id, function := some script }] }) := by
    simp only [callFunction,compiled]
  rw [result]
  refine ⟨⟨⟨after.flags,after.global,after.compiled,calls⟩,set⟩,?_⟩
  intro answer t done
  cases done
  exact harmless

theorem callInline_coherent (consistent : registry.Consistent) (spares : i.Spares registry script)
    (coherent : s.Coherent registry) : (callInline i script s).2.Coherent registry ∧
      ∀ result t, callInline i script s = (.ok result,t) → Harmless registry result := by
  obtain ⟨spared,harmless⟩ := spares.eval (.inline script) rfl s.globals
  refine ⟨coherent.spared consistent spared,?_⟩
  intro answer t done
  cases done
  exact harmless

theorem declare_keeps_flag (ident : String) :
    Eff.Keeps (fun s => s.compiledFlags[id]? = some true) (declare i ident) := by
  intro s set
  unfold declare
  split <;> exact set

theorem executeJs_keeps (consistent : registry.Consistent) (spares : i.Spares registry script) :
    Eff.Keeps (Session.Coherent registry) (executeJs i registry script) := by
  unfold executeJs
  split
  · rename_i id known
    intro s coherent
    obtain ⟨kept,flag⟩ := compileOnce_coherent consistent spares known coherent
    refine Eff.bind_state_of kept ?_
    intro _ t done there
    have loop := @retry_keeps i registry script (fun s => s.Coherent registry ∧ s.compiledFlags[id]? = some true) _
      (fun s both => callFunction_coherent consistent spares known both.1 both.2)
      (fun ident other s both => ⟨declare_keeps consistent other s both.1,declare_keeps_flag ident s both.2⟩)
      (maxUndeclaredRetries + 1)
    exact (loop t ⟨there,flag _ t done⟩).1
  · exact retry_keeps (fun s coherent => callInline_coherent consistent spares coherent)
      (fun ident other => declare_keeps consistent other) _

theorem interpolate_keeps (consistent : registry.Consistent) (text : String) (segments : List Segment)
    (spares : ∀ segment ∈ segments, i.Spares registry segment.inner) (cursor : Nat) (out : String)
    (failed : Option RuuterError) :
    Eff.Keeps (Session.Coherent registry) (interpolate i registry text segments cursor out failed) := by
  induction segments generalizing cursor out failed with
  | nil =>
    unfold interpolate
    split
    · exact Eff.keeps_throw _
    · exact Eff.keeps_pure _
  | cons segment rest ih =>
    have later := ih fun segment member => spares segment (List.mem_cons_of_mem _ member)
    unfold interpolate
    apply Eff.keeps_bind (Eff.keeps_attempt (executeJs_keeps consistent (spares segment (List.mem_cons_self ..))))
    intro result
    cases result with
    | ok value => exact later _ _ _
    | error e => exact later _ _ _

theorem evaluateString_keeps {text : String} (consistent : registry.Consistent)
    (spares : ∀ source ∈ Registry.extracted text, i.Spares registry source) :
    Eff.Keeps (Session.Coherent registry) (evaluateString i registry text) := by
  unfold evaluateString
  split
  · rename_i inner whole
    apply Eff.keeps_bind (executeJs_keeps consistent (spares inner (by simp [Registry.extracted,whole])))
    exact fun value => Eff.keeps_pure _
  · rename_i mixed
    apply interpolate_keeps consistent
    intro segment member
    exact spares segment.inner (by simpa [Registry.extracted,mixed] using ⟨segment,member,rfl⟩)

/-- The condition on the scripts of a value. -/
def ScriptsSpare (i : Interpreter) (registry : ExpressionRegistry) (texts : List String) : Prop :=
  ∀ text ∈ texts, ∀ source ∈ Registry.extracted text, i.Spares registry source

mutual

theorem evaluateWith_keeps (consistent : registry.Consistent) : (value : Json) →
    ScriptsSpare i registry value.strings → Eff.Keeps (Session.Coherent registry) (evaluateWith i registry value)
  | .string text, spares => evaluateString_keeps consistent (spares text (List.mem_singleton_self _))
  | .array items, spares => Eff.keeps_bind (evaluateItems_keeps consistent items spares) fun _ => Eff.keeps_pure _
  | .object members, spares => Eff.keeps_bind (evaluateMembers_keeps consistent members spares) fun _ => Eff.keeps_pure _
  | .null, _ | .bool _, _ | .number _, _ => Eff.keeps_pure _

theorem evaluateItems_keeps (consistent : registry.Consistent) : (items : List Json) →
    ScriptsSpare i registry (Json.stringsList items) →
      Eff.Keeps (Session.Coherent registry) (evaluateItems i registry items)
  | [], _ => Eff.keeps_pure _
  | item :: rest, spares => by
    have here := evaluateWith_keeps consistent item fun text member => spares text (List.mem_append_left _ member)
    have there := evaluateItems_keeps consistent rest fun text member => spares text (List.mem_append_right _ member)
    exact Eff.keeps_bind here fun _ => Eff.keeps_bind there fun _ => Eff.keeps_pure _

theorem evaluateMembers_keeps (consistent : registry.Consistent) : (members : List (String × Json)) →
    ScriptsSpare i registry (Json.stringsMembers members) →
    Eff.Keeps (Session.Coherent registry) (evaluateMembers i registry members)
  | [], _ => Eff.keeps_pure _
  | (_,value) :: rest, spares => by
    have here := evaluateWith_keeps consistent value fun text member => spares text (List.mem_append_left _ member)
    have there := evaluateMembers_keeps consistent rest fun text member => spares text (List.mem_append_right _ member)
    exact Eff.keeps_bind here fun _ => Eff.keeps_bind there fun _ => Eff.keeps_pure _

end

theorem bindVariables_keeps (consistent : registry.Consistent) (entries : List (Sigma fun _ : String => Json))
    (other : ∀ entry ∈ entries, ¬ Reserved registry entry.1) :
    Eff.Keeps (Session.Coherent registry) (bindVariables i entries) := by
  induction entries with
  | nil => exact Eff.keeps_pure _
  | cons entry rest ih =>
    apply Eff.keeps_bind (bindVariable_keeps consistent (other entry (List.mem_cons_self ..)))
    exact fun _ => ih fun entry member => other entry (List.mem_cons_of_mem _ member)

theorem not_reserved {name : String} (other : name ≠ "globalThis") (front : name.toList.head? ≠ some '_') :
    ¬ Reserved registry name := by
  rintro (same | ⟨id,_,same⟩)
  · exact other same
  · have underscore : ("__fn_" ++ toString id).toList.head? = some '_' := by
      rw [String.toList_append]
      rfl
    rw [same,fnName] at front
    exact front underscore

/-- The variables of an evaluation have other names, and its scripts leave the functions alone. -/
structure Evaluation.Spares (e : Evaluation) (i : Interpreter) (registry : ExpressionRegistry) : Prop where
  names : ∀ entry ∈ e.vars.entries, ¬ Reserved registry entry.1
  scripts : ScriptsSpare i registry e.input.strings

theorem evaluate_keeps (consistent : registry.Consistent) {e : Evaluation} (spares : e.Spares i registry) :
    Eff.Keeps (Session.Coherent registry) (evaluate i registry e) := by
  unfold evaluate
  split
  · have bound : Eff.Keeps (Session.Coherent registry) (setupBindings i e.ctx e.vars) :=
      Eff.keeps_bind (bindVariable_keeps consistent (not_reserved (by decide) (by decide)))
        fun _ => bindVariables_keeps consistent e.vars.entries spares.names
    exact Eff.keeps_bind bound fun _ => evaluateWith_keeps consistent e.input spares.scripts
  · exact Eff.keeps_pure _

theorem coherent_sessionAfter (consistent : registry.Consistent) (run : List Evaluation)
    (spares : ∀ e ∈ run, e.Spares i registry) (coherent : s.Coherent registry) :
    (sessionAfter i registry run s).Coherent registry := by
  induction run generalizing s with
  | nil => exact coherent
  | cons e rest ih =>
    have first := evaluate_keeps consistent (spares e (List.mem_cons_self ..)) s coherent
    exact ih (fun e member => spares e (List.mem_cons_of_mem _ member)) first

end Sound

/-- The registry is complete and consistent, and in a run whose variables and scripts leave the functions
alone every call by an id calls what was compiled from its script. -/
theorem compiled_functions_exact (dsls : List Dsl) (i : Interpreter) (run : List Evaluation)
    (spares : ∀ e ∈ run, e.Spares i (Registry.build dsls)) :
    (Registry.build dsls).Consistent ∧
      (∀ dsl ∈ dsls, ∀ text, text ∈ dsl.toValue.strings ∨ text ∈ dsl.texts → ∀ source ∈ Registry.extracted text,
        ∃ id < (Registry.build dsls).len, (Registry.build dsls).idFor source = some id) ∧
      ∀ call ∈ (sessionAfter i (Registry.build dsls) run (Session.new (Registry.build dsls))).calls,
        call.Exact (Registry.build dsls)
          (sessionAfter i (Registry.build dsls) run (Session.new (Registry.build dsls))).compiledFlags := by
  have consistent := Registry.consistent_build dsls
  refine ⟨consistent,?_,?_⟩
  · intro dsl held text inside source member
    have serialised : text ∈ dsl.toValue.strings := inside.elim (fun here => here) Registry.mem_strings_toValue
    exact Registry.extracted_registered held serialised member
  · have coherent := coherent_sessionAfter consistent run spares (coherent_new (Registry.build dsls))
    exact coherent.calls

/-- Numbers are expressions, what is no function cannot be called. -/
def numerals : Interpreter where
  setProperty held _ _ := .ok held
  parseMissing _ := "TypeError: not a function"
  readFloat q := q
  parseError _ := ""
  utf8Error _ := ""
  jsonText _ := ""
  isExpression _ := true
  splice _ _ g := (.error "SyntaxError",g)
  setFunction held _ _ := .ok held
  eval _ g := (.ok (.value (.number (.finite 1))),g)
  callOther _ _ := .ok (.thrown "TypeError" "not a function")

/-- A DSL that assigns a variable with the name of a function. -/
def shadowing : Dsl where
  steps :=
    { entries :=
        [⟨"first",.assign { assign := AList.insert "kept" (.string "$\x7b1\x7d") ∅ }⟩,
          ⟨"shadow",.assign { assign := AList.insert "__fn_0" (.number (.posInt 5)) ∅ }⟩,
          ⟨"answer",.returnStep { returnValue := .string "$\x7b1\x7d" }⟩]
      nodupKeys := by simp [List.NodupKeys] }

/-- The variables of its last step. -/
def shadowed : StringMap Json :=
  AList.insert "__fn_0" (.number (.posInt 5)) (AList.insert "kept" (.number (.posInt 1)) ∅)

theorem numerals_spares (registry : ExpressionRegistry) (script : String) : numerals.Spares registry script where
  eval _ _ g := ⟨spared_refl registry g,by
    intro message ident thrown
    cases thrown⟩
  splice other := by cases other

theorem compiled_functions_exact_kept :
    ((sessionAfter numerals (Registry.build [shadowing])
        [{ ctx := {}, vars := ∅, input := .string "$\x7b1\x7d" },
          { ctx := {}, vars := AList.insert "kept" (.number (.posInt 1)) ∅, input := .string "$\x7b1\x7d" }]
        (Session.new (Registry.build [shadowing]))).calls.all fun call => call.function = some call.script) = true := by
  rw [List.all_eq_true]
  intro call member
  apply decide_eq_true
  refine ((compiled_functions_exact [shadowing] numerals _ ?_).2.2 call member).2.2
  intro e inside
  refine ⟨?_,fun _ _ _ _ => numerals_spares _ _⟩
  have names : ∀ entry ∈ e.vars.entries, entry.1 = "kept" := by
    simp only [List.mem_cons,List.not_mem_nil,or_false] at inside
    obtain rfl | rfl := inside <;> simp [AList.insert]
  intro entry held
  rw [names entry held]
  exact not_reserved (by decide) (by decide)

theorem variable_takes_function :
    "$\x7b1\x7d" ∈ shadowing.texts ∧
    ¬ ∀ call ∈ (sessionAfter numerals (Registry.build [shadowing])
        [{ ctx := {}, vars := ∅, input := .string "$\x7b1\x7d" },
          { ctx := {}, vars := shadowed, input := .string "$\x7b1\x7d" }]
        (Session.new (Registry.build [shadowing]))).calls, call.function = some call.script := by
  decide +kernel

end QuickJs

end Ruuter
