import Ruuter.Context
import Ruuter.JsValue
import Ruuter.Lib.Assoc
import Ruuter.Lib.Ecma
import Ruuter.OpenApi

/-! What the two script engines bind before a script runs (`setup_bindings` of
`src/scripting/boa.rs` and `src/scripting/quickjs.rs`): Boa evaluates JSON texts as source, QuickJS
calls `JSON.parse`. -/
namespace Ruuter

namespace Json

mutual

/-- No object inside has a member `__proto__`. -/
def protoFree : Json → Bool
  | .array items => protoFreeItems items
  | .object members => protoFreeMembers members
  | .null | .bool _ | .number _ | .string _ => true

def protoFreeItems : List Json → Bool
  | [] => true
  | item :: rest => item.protoFree && protoFreeItems rest

def protoFreeMembers : List (String × Json) → Bool
  | [] => true
  | (key,value) :: rest => key ≠ "__proto__" && value.protoFree && protoFreeMembers rest

end

end Json

namespace Scripting
open JsValue

section Literals
open Ecma

def escapeChar (c : Char) : List Char :=
  if c = '\\' then ['\\','\\']
  else if c = '"' then ['\\','"']
  else if c = '\n' then ['\\','n']
  else if c = '\r' then ['\\','r']
  else if c = '\t' then ['\\','t']
  else if c.toNat < 0x20 then
    ['\\','u','0','0',Nat.digitChar (c.toNat / 16),Nat.digitChar (c.toNat % 16)]
  else [c]

/-- `js_string_literal`. -/
def jsStringLiteral (s : String) : String :=
  String.ofList ('"' :: (s.toList.flatMap escapeChar ++ ['"']))

/-- The value of a string literal of a script. -/
def stringLiteralValue (source : String) : Option String := (literalValue source.toList).bind Utf16.decode

theorem escapeSequence_control (control : c.toNat < 0x20) (rest : List Char) :
    escapeSequence ('u' :: '0' :: '0' :: Nat.digitChar (c.toNat / 16) :: Nat.digitChar (c.toNat % 16) :: rest) =
      some (Utf16.encodeChar c,rest) := by
  have digits : ∀ n < 0x20, hexDigit (Nat.digitChar (n / 16)) = some (n / 16) ∧
      hexDigit (Nat.digitChar (n % 16)) = some (n % 16) := by decide
  obtain ⟨high,low⟩ := digits c.toNat control
  have code : 0 * 0x1000 + 0 * 0x100 + c.toNat / 16 * 0x10 + c.toNat % 16 = c.toNat := by omega
  have zero : hexDigit '0' = some 0 := rfl
  have unit : Utf16.encodeChar c = [UInt16.ofNat c.toNat] := if_pos (by omega)
  rw [escapeSequence_hex (by decide),zero,high,low,unit]
  simp only [Option.bind_eq_bind,Option.bind_some,code]
  rfl

/-- One character of the text is read from what stands for it, whatever follows. -/
theorem characters_escapeChar (c : Char) (characters : Characters text units rest) :
    Characters (escapeChar c ++ text) (Utf16.encodeChar c ++ units) rest := by
  unfold escapeChar
  split_ifs with backslash quote newline carriage tab control
  · subst backslash; exact .escape rfl characters
  · subst quote; exact .escape rfl characters
  · subst newline; exact .escape rfl characters
  · subst carriage; exact .escape rfl characters
  · subst tab; exact .escape rfl characters
  · exact .escape (escapeSequence_control control text) characters
  · exact .plain (by simp [quote,backslash,newline,carriage]) characters

theorem characters_escaped (text rest : List Char) :
    Characters (text.flatMap escapeChar ++ '"' :: rest) (text.flatMap Utf16.encodeChar) rest := by
  induction text with
  | nil => exact .close
  | cons c later ih =>
    rw [List.flatMap_cons,List.flatMap_cons,List.append_assoc]
    exact characters_escapeChar c ih

theorem jsStringLiteral_reads (s : String) (rest : List Char) :
    Literal ((jsStringLiteral s).toList ++ rest) (Utf16.encode s) rest := by
  refine ⟨s.toList.flatMap escapeChar ++ '"' :: rest,?_,characters_escaped s.toList rest⟩
  rw [jsStringLiteral,String.toList_ofList,List.cons_append,List.append_assoc]
  rfl

theorem stringLiteralValue_jsStringLiteral (s : String) : stringLiteralValue (jsStringLiteral s) = some s := by
  have literal := jsStringLiteral_reads s []
  rw [List.append_nil] at literal
  rw [stringLiteralValue,literalValue_iff.mpr literal]
  exact Utf16.decode_encode s

end Literals

/-- The texts of exceptions and assignments to properties of other values than the global object. -/
structure Interpreter where
  setProperty : JsValue → String → JsValue → Except String JsValue
  parseMissing : JsValue → String

/-- The global object: `incoming`, the properties that the variables gave it, and its prototype when
that is not the one it started with. -/
structure Globals where
  incoming : JsValue
  vars : List (String × JsValue) := []
  prototype : Option JsValue := none

/-- What a script reads under a name that `setup_bindings` has bound. -/
def Globals.get? (g : Globals) (name : String) : Option JsValue :=
  (g.vars.lookup name).or (if name = "incoming" then some g.incoming else none)

def Globals.bind (g : Globals) (name : String) (value : JsValue) : Globals :=
  { g with vars := (name,value) :: g.vars }

/-- `globalThis[name] = value`. A variable `globalThis` takes the place of the global object, some
properties of which are read-only, and `__proto__` is an accessor. -/
def Globals.assign (i : Interpreter) (g : Globals) (name : String) (value : JsValue) : Except String Globals :=
  match g.vars.lookup "globalThis" with
  | some target => (i.setProperty target name value).map (g.bind "globalThis")
  | none =>
    if name ∈ ["undefined","NaN","Infinity"] then .ok g
    else if name = "__proto__" then
      match value with
      | .null | .array _ | .object _ | .inheriting _ _ => .ok { g with prototype := some value }
      | .undefined | .bool _ | .number _ | .string _ => .ok g
    else .ok (g.bind name value)

/-- How a backend makes a value of a JSON text, whether by a call of `JSON.parse`, and what it says
before the text of an exception. -/
structure Backend where
  value : Json → JsValue
  callsParse : Bool
  context : String → String

namespace Backend

def boa : Backend where
  value := literal
  callsParse := false
  context _ := ""

def quickjs : Backend where
  value := parse
  callsParse := true
  context name := "qjs bind " ++ name ++ ": "

def objectOf (map : StringMap Json) : Json :=
  .object (map.entries.foldl (fun members entry => Json.insertMember entry.1 entry.2 members) [])

/-- The parts of `incoming` that come with the request. -/
def sections (ctx : Ctx) : List (String × Json) :=
  [("params",objectOf ctx.requestQuery),("body",objectOf ctx.requestBody),
    ("headers",objectOf (Assoc.mapValues (fun _ value => .string value) ctx.requestHeaders))]

/-- A hash map in the source, so in any order there. -/
def incoming (ctx : Ctx) : Json :=
  .object (sections ctx ++ [("connection_id",(ctx.connectionId.map Json.string).getD .null),
    ("origin",.string ctx.requestOrigin)])

variable (b : Backend) (i : Interpreter)

def bindVariable (g : Globals) (name : String) (value : Json) : Except RuuterError Globals :=
  let fail (exception : String) : RuuterError := .scriptEvaluation (b.context name ++ exception)
  match stringLiteralValue (jsStringLiteral name) with
  | none => .error (fail "SyntaxError")
  | some key =>
    match b.callsParse,g.vars.lookup "JSON" with
    | true,some held => .error (fail (i.parseMissing held))
    | true,none | false,_ => (g.assign i key (b.value value)).mapError fail

def bindVariables : List (Sigma fun _ : String => Json) → Globals → Except RuuterError Globals
  | [], g => .ok g
  | entry :: rest, g => do
    let g ← bindVariable b i g entry.1 entry.2
    bindVariables rest g

def setupBindings (ctx : Ctx) (vars : StringMap Json) : Except RuuterError Globals :=
  bindVariables b i vars.entries { incoming := b.value (incoming ctx) }

end Backend

section Exact

mutual

/-- The own enumerable properties are the members at every depth, and no more can be read. -/
def Exact : Json → JsValue → Prop
  | .null, value => value = .null
  | .bool b, value => value = .bool b
  | .number n, value => value = .number n.toJs
  | .string s, value => value = .string (Utf16.encode s)
  | .array items, value => ∃ values, value = .array values ∧ ExactItems items values
  | .object members, value => ∃ own, value.members? = some own ∧ ExactMembers members own ∧
      ∀ name, value.get? name = own.lookup name

def ExactItems : List Json → List JsValue → Prop
  | [], values => values = []
  | item :: rest, values => ∃ value later, values = value :: later ∧ Exact item value ∧ ExactItems rest later

def ExactMembers : List (String × Json) → List (JsString × JsValue) → Prop
  | [], own => own = []
  | (key,item) :: rest, own => ∃ value later, own = (Utf16.encode key,value) :: later ∧
      Exact item value ∧ ExactMembers rest later

end

mutual

theorem exact_parse : (j : Json) → Exact j (parse j)
  | .null => rfl
  | .bool _ => rfl
  | .number _ => rfl
  | .string _ => rfl
  | .array items => ⟨_,rfl,exactItems_parse items⟩
  | .object members => ⟨_,rfl,exactMembers_parse members,fun _ => rfl⟩

theorem exactItems_parse : (items : List Json) → ExactItems items (parseItems items)
  | [] => rfl
  | item :: rest => ⟨_,_,rfl,exact_parse item,exactItems_parse rest⟩

theorem exactMembers_parse : (members : List (String × Json)) → ExactMembers members (parseMembers members)
  | [] => rfl
  | (_,value) :: rest => ⟨_,_,rfl,exact_parse value,exactMembers_parse rest⟩

end

mutual

/-- Of the values of `JSON.parse` only one is exact. -/
theorem parse_eq_of_exact : (j other : Json) → Exact j (parse other) → parse other = parse j
  | .null, _, exact => exact
  | .bool _, _, exact => exact
  | .number _, _, exact => exact
  | .string _, _, exact => exact
  | .array items, other, ⟨values,same,exact⟩ => by
    cases other <;> cases same
    exact congrArg JsValue.array (parseItems_eq_of_exact items _ exact)
  | .object members, other, ⟨own,same,exact,_⟩ => by
    cases other <;> cases same
    exact congrArg JsValue.object (parseMembers_eq_of_exact members _ exact)

theorem parseItems_eq_of_exact : (items others : List Json) → ExactItems items (parseItems others) →
    parseItems others = parseItems items
  | [], _, exact => exact
  | item :: rest, others, ⟨value,later,same,exact,more⟩ => by
    cases others with
    | nil => cases same
    | cons other later =>
      cases same
      exact congrArg₂ List.cons (parse_eq_of_exact item other exact) (parseItems_eq_of_exact rest later more)

theorem parseMembers_eq_of_exact : (members others : List (String × Json)) →
    ExactMembers members (parseMembers others) → parseMembers others = parseMembers members
  | [], _, exact => exact
  | (key,item) :: rest, others, ⟨value,later,same,exact,more⟩ => by
    cases others with
    | nil => cases same
    | cons other later =>
      obtain ⟨name,other⟩ := other
      have rests := parseMembers_eq_of_exact rest later
      simp only [parseMembers,List.cons.injEq,Prod.mk.injEq] at same ⊢
      obtain ⟨⟨names,rfl⟩,rfl⟩ := same
      exact ⟨⟨names,parse_eq_of_exact item other exact⟩,rests more⟩

end

/-- Without a member `__proto__` a literal is a plain object. -/
theorem ofLiteral_free {members : List (JsString × JsValue)}
    (free : ∀ member ∈ members, member.1 ≠ Utf16.encode "__proto__") : ofLiteral members = .object members := by
  have own : members.filter (·.1 ≠ Utf16.encode "__proto__") = members :=
    List.filter_eq_self.mpr fun member inside => decide_eq_true (free member inside)
  have absent : members.lookup (Utf16.encode "__proto__") = none := by
    rw [List.lookup_eq_none_iff]
    intro member inside
    exact bne_iff_ne.mpr (Ne.symm (free member inside))
  unfold ofLiteral
  simp only [own,absent]

theorem members_ofLiteral (members : List (JsString × JsValue)) :
    (ofLiteral members).members? = some (members.filter (·.1 ≠ Utf16.encode "__proto__")) := by
  unfold ofLiteral
  dsimp only
  split <;> rfl

mutual

theorem literal_eq_parse : (j : Json) → j.protoFree = true → literal j = parse j
  | .null, _ => rfl
  | .bool _, _ => rfl
  | .number _, _ => rfl
  | .string _, _ => rfl
  | .array items, free => congrArg JsValue.array (literalItems_eq_parse items free)
  | .object members, free => by
    obtain ⟨same,names⟩ := literalMembers_eq_parse members free
    rw [literal,parse,ofLiteral_free names,same]

theorem literalItems_eq_parse : (items : List Json) → Json.protoFreeItems items = true →
    literalItems items = parseItems items
  | [], _ => rfl
  | item :: rest, free => by
    rw [Json.protoFreeItems,Bool.and_eq_true] at free
    rw [literalItems,parseItems,literal_eq_parse item free.1,literalItems_eq_parse rest free.2]

theorem literalMembers_eq_parse : (members : List (String × Json)) → Json.protoFreeMembers members = true →
    literalMembers members = parseMembers members ∧
      ∀ member ∈ literalMembers members, member.1 ≠ Utf16.encode "__proto__"
  | [], _ => ⟨rfl,fun _ inside => absurd inside List.not_mem_nil⟩
  | (key,value) :: rest, free => by
    simp only [Json.protoFreeMembers,Bool.and_eq_true,decide_eq_true_eq] at free
    obtain ⟨⟨other,held⟩,later⟩ := free
    obtain ⟨same,names⟩ := literalMembers_eq_parse rest later
    rw [literalMembers,parseMembers,literal_eq_parse value held,same]
    refine ⟨rfl,fun member inside => ?_⟩
    rcases List.mem_cons.mp inside with rfl | inside
    · exact fun equal => other (Utf16.encode_injective equal)
    · exact names member (same ▸ inside)

end

theorem ExactMembers.names (exact : ExactMembers members own) :
    own.map Prod.fst = members.map fun member => Utf16.encode member.1 := by
  induction members generalizing own with
  | nil =>
    cases exact
    rfl
  | cons member rest ih =>
    obtain ⟨value,later,rfl,_,more⟩ := exact
    rw [List.map_cons,List.map_cons,ih more]

theorem literalMembers_names (members : List (String × Json)) :
    (literalMembers members).map Prod.fst = members.map fun member => Utf16.encode member.1 := by
  induction members with
  | nil => rfl
  | cons member rest ih =>
    rw [literalMembers,List.map_cons,List.map_cons,ih]

mutual

theorem protoFree_of_exact : (j : Json) → Exact j (literal j) → j.protoFree = true
  | .null, _ => rfl
  | .bool _, _ => rfl
  | .number _, _ => rfl
  | .string _, _ => rfl
  | .array items, ⟨_,same,exact⟩ => by
    cases same
    exact protoFreeItems_of_exact items exact
  | .object members, ⟨own,held,exact,_⟩ => by
    rw [literal,members_ofLiteral,Option.some.injEq] at held
    subst held
    -- A member `__proto__` would be missing among the own properties.
    have other : ∀ member ∈ members, member.1 ≠ "__proto__" := by
      intro member inside equal
      have listed : Utf16.encode "__proto__" ∈ members.map fun member => Utf16.encode member.1 :=
        List.mem_map.mpr ⟨member,inside,congrArg Utf16.encode equal⟩
      rw [← exact.names] at listed
      obtain ⟨property,kept,same⟩ := List.mem_map.mp listed
      have apart := (List.mem_filter.mp kept).2
      exact of_decide_eq_true apart same
    have kept : (literalMembers members).filter (·.1 ≠ Utf16.encode "__proto__") = literalMembers members := by
      apply List.filter_eq_self.mpr
      intro property inside
      have listed := List.mem_map_of_mem (f := Prod.fst) inside
      rw [literalMembers_names] at listed
      obtain ⟨member,inside,same⟩ := List.mem_map.mp listed
      exact decide_eq_true fun equal => other member inside (Utf16.encode_injective (same.trans equal))
    rw [kept] at exact
    exact protoFreeMembers_of_exact members other exact

theorem protoFreeItems_of_exact : (items : List Json) → ExactItems items (literalItems items) →
    Json.protoFreeItems items = true
  | [], _ => rfl
  | item :: rest, ⟨_,_,same,exact,more⟩ => by
    cases same
    rw [Json.protoFreeItems,protoFree_of_exact item exact,protoFreeItems_of_exact rest more,Bool.and_self]

theorem protoFreeMembers_of_exact : (members : List (String × Json)) →
    (∀ member ∈ members, member.1 ≠ "__proto__") → ExactMembers members (literalMembers members) →
    Json.protoFreeMembers members = true
  | [], _, _ => rfl
  | (key,value) :: rest, other, ⟨_,_,same,exact,more⟩ => by
    have first : key ≠ "__proto__" := other _ List.mem_cons_self
    cases same
    rw [Json.protoFreeMembers,protoFree_of_exact value exact,
      protoFreeMembers_of_exact rest (fun member inside => other member (List.mem_cons_of_mem _ inside)) more]
    simp [first]

end

theorem exact_literal_iff (j : Json) : Exact j (literal j) ↔ j.protoFree = true := by
  constructor
  · exact protoFree_of_exact j
  · intro free
    rw [literal_eq_parse j free]
    exact exact_parse j

theorem exact_parse_iff (j other : Json) : Exact j (parse other) ↔ parse other = parse j := by
  constructor
  · exact parse_eq_of_exact j other
  · intro same
    rw [same]
    exact exact_parse j

end Exact

namespace Backend
variable {b : Backend} {i : Interpreter} {g after : Globals}

/-- Names that `setup_bindings` cannot make a property of the global object. -/
def reserved : List String := ["undefined","NaN","Infinity","__proto__"]

theorem bindVariable_eq (b : Backend) (i : Interpreter) (g : Globals) (name : String) (value : Json)
    (free : b.callsParse = true → g.vars.lookup "JSON" = none) : bindVariable b i g name value =
      (g.assign i name (b.value value)).mapError fun exception =>
        .scriptEvaluation (b.context name ++ exception) := by
  unfold bindVariable
  rw [stringLiteralValue_jsStringLiteral]
  cases calls : b.callsParse with
  | false => rfl
  | true => rw [free calls]

theorem bindVariable_ok (open' : g.vars.lookup "globalThis" = none)
    (free : b.callsParse = true → g.vars.lookup "JSON" = none)
    (plain : name ∉ reserved) (value : Json) : bindVariable b i g name value = .ok (g.bind name (b.value value)) := by
  have readable :
      name ∉ ["undefined","NaN","Infinity"] := fun member => plain (List.mem_append_left ["__proto__"] member)
  have other : name ≠ "__proto__" := by
    rintro rfl
    exact plain (by decide)
  rw [bindVariable_eq b i g name value free]
  unfold Globals.assign
  rw [open',if_neg readable,if_neg other]
  rfl

/-- Where the names allow it each variable becomes a property. -/
theorem bindVariables_ok {entries : List (Sigma fun _ : String => Json)} (plain : ∀ entry ∈ entries, entry.1 ∉ reserved)
    (last : ∀ entry ∈ entries.dropLast, entry.1 ≠ "globalThis" ∧ (b.callsParse = true → entry.1 ≠ "JSON"))
    (open' : g.vars.lookup "globalThis" = none) (free : b.callsParse = true → g.vars.lookup "JSON" = none) :
    bindVariables b i entries g =
      .ok { g with vars := (entries.map fun entry => (entry.1,b.value entry.2)).reverse ++ g.vars } := by
  induction entries generalizing g with
  | nil => rfl
  | cons entry rest ih =>
    rw [bindVariables,bindVariable_ok open' free (plain _ List.mem_cons_self)]
    show bindVariables b i rest (g.bind entry.1 (b.value entry.2)) = _
    by_cases done : rest = []
    · subst done
      rfl
    · rw [List.dropLast_cons_of_ne_nil done] at last
      obtain ⟨notGlobal,notJson⟩ := last entry List.mem_cons_self
      have stillOpen : (g.bind entry.1 (b.value entry.2)).vars.lookup "globalThis" = none := by
        rw [Globals.bind,List.lookup_cons,beq_false_of_ne (Ne.symm notGlobal)]
        exact open'
      have stillFree (calls : b.callsParse = true) : (g.bind entry.1 (b.value entry.2)).vars.lookup "JSON" = none := by
        rw [Globals.bind,List.lookup_cons,beq_false_of_ne (Ne.symm (notJson calls))]
        exact free calls
      rw [ih (fun entry member => plain entry (List.mem_cons_of_mem _ member))
        (fun entry member => last entry (List.mem_cons_of_mem _ member)) stillOpen stillFree]
      simp [Globals.bind]

/-- An assignment binds its own name or, once that is a variable, `globalThis`. -/
theorem assign_cases {name : String} {value : JsValue} (assigned : g.assign i name value = .ok after) :
    (after.vars = g.vars) ∨
    (g.vars.lookup "globalThis" = none ∧ name ∉ reserved ∧ after = g.bind name value) ∨
    (g.vars.lookup "globalThis" ≠ none ∧ ∃ changed, after = g.bind "globalThis" changed) := by
  unfold Globals.assign at assigned
  split at assigned
  · rename_i target held
    cases changed : i.setProperty target name value with
    | error e =>
      rw [changed] at assigned
      cases assigned
    | ok v =>
      rw [changed] at assigned
      cases assigned
      exact .inr (.inr ⟨by rw [held]; exact Option.some_ne_none _,v,rfl⟩)
  · rename_i unheld
    split_ifs at assigned with readOnly accessor
    · cases assigned
      exact .inl rfl
    · left
      split at assigned <;> cases assigned <;> rfl
    · cases assigned
      refine .inr (.inl ⟨unheld,?_,rfl⟩)
      intro member
      rcases List.mem_append.mp (show name ∈ ["undefined","NaN","Infinity"] ++ ["__proto__"] from member) with early | late
      · exact readOnly early
      · exact accessor (List.mem_singleton.mp late)

theorem bindVariable_cases {name : String} {value : Json} (bound : bindVariable b i g name value = .ok after) :
    (b.callsParse = true → g.vars.lookup "JSON" = none) ∧ ∃ assigned, g.assign i name assigned = .ok after := by
  have free : b.callsParse = true → g.vars.lookup "JSON" = none := by
    intro calls
    unfold bindVariable at bound
    rw [stringLiteralValue_jsStringLiteral,calls] at bound
    cases held : g.vars.lookup "JSON" with
    | none => rfl
    | some value =>
      rw [held] at bound
      cases bound
  rw [bindVariable_eq b i g name value free] at bound
  refine ⟨free,b.value value,?_⟩
  cases assigned : g.assign i name (b.value value) with
  | error e =>
    rw [assigned] at bound
    cases bound
  | ok globals =>
    rw [assigned] at bound
    cases bound
    rfl

theorem assign_keeps {name : String} {value : JsValue} (assigned : g.assign i name value = .ok after)
    (found : g.vars.lookup key ≠ none) : after.vars.lookup key ≠ none := by
  have kept (name : String) (value : JsValue) : (g.bind name value).vars.lookup key ≠ none := by
    rw [Globals.bind,List.lookup_cons]
    cases key == name with
    | true => exact Option.some_ne_none _
    | false => exact found
  rcases assign_cases assigned with same | ⟨_,_,rfl⟩ | ⟨_,changed,rfl⟩
  · rwa [same]
  · exact kept _ _
  · exact kept _ _

theorem assign_names {name : String} {value : JsValue} (assigned : g.assign i name value = .ok after)
    (found : after.vars.lookup key ≠ none) :
    g.vars.lookup key ≠ none ∨ g.vars.lookup "globalThis" = none ∧ key = name ∧ key ∉ reserved := by
  have new {name : String} {value : JsValue} (found : (g.bind name value).vars.lookup key ≠ none) :
      g.vars.lookup key ≠ none ∨ key = name := by
    rw [Globals.bind,List.lookup_cons] at found
    cases same : key == name with
    | true => exact .inr (beq_iff_eq.mp same)
    | false =>
      rw [same] at found
      exact .inl found
  rcases assign_cases assigned with same | ⟨unheld,plain,rfl⟩ | ⟨held,changed,rfl⟩
  · exact .inl (same ▸ found)
  · refine (new found).imp_right fun same => ⟨unheld,same,same ▸ plain⟩
  · refine .inl ((new found).elim id fun same => same ▸ held)

/-- A name that has become a property is one of the variables or was a property before. After a variable
`globalThis` there are no new ones. -/
theorem bindVariables_names {entries : List (Sigma fun _ : String => Json)}
    (bound : bindVariables b i entries g = .ok after) (found : after.vars.lookup key ≠ none) :
    g.vars.lookup key ≠ none ∨
      g.vars.lookup "globalThis" = none ∧ ∃ entry ∈ entries, key = entry.1 ∧ key ∉ reserved := by
  induction entries generalizing g with
  | nil =>
    cases bound
    exact .inl found
  | cons entry rest ih =>
    obtain ⟨middle,first,later⟩ := Eff.except_bind_inv bound
    obtain ⟨_,value,assigned⟩ := bindVariable_cases first
    rcases ih later with held | ⟨unheld,other,member,same,plain⟩
    · refine (assign_names assigned held).imp_right ?_
      rintro ⟨unheld,same,plain⟩
      exact ⟨unheld,entry,List.mem_cons_self,same,plain⟩
    · refine .inr ⟨?_,other,List.mem_cons_of_mem _ member,same,plain⟩
      exact not_not.mp fun held => assign_keeps assigned held unheld

/-- When every variable has become a property, the names allowed it. -/
theorem names_of_bound {entries : List (Sigma fun _ : String => Json)} (nodup : (entries.map Sigma.fst).Nodup)
    (fresh : ∀ entry ∈ entries, g.vars.lookup entry.1 = none) (bound : bindVariables b i entries g = .ok after)
    (found : ∀ entry ∈ entries, after.vars.lookup entry.1 ≠ none) :
    (∀ entry ∈ entries, entry.1 ∉ reserved) ∧
      ∀ entry ∈ entries.dropLast, entry.1 ≠ "globalThis" ∧ (b.callsParse = true → entry.1 ≠ "JSON") := by
  induction entries generalizing g with
  | nil => exact ⟨fun _ member => absurd member List.not_mem_nil,fun _ member => absurd member List.not_mem_nil⟩
  | cons entry rest ih =>
    rw [List.map_cons,List.nodup_cons] at nodup
    obtain ⟨middle,first,later⟩ := Eff.except_bind_inv bound
    obtain ⟨free,value,assigned⟩ := bindVariable_cases first
    have unbound : g.vars.lookup entry.1 = none := fresh _ List.mem_cons_self
    -- The later variables have other names, so this one was bound by its own assignment.
    have own : middle.vars.lookup entry.1 ≠ none := by
      refine (bindVariables_names later (found _ List.mem_cons_self)).resolve_right ?_
      rintro ⟨_,other,member,same,_⟩
      exact nodup.1 (same ▸ List.mem_map_of_mem member)
    have made := (assign_names assigned own).resolve_left (fun held => held unbound)
    have still : ∀ other ∈ rest, middle.vars.lookup other.1 = none := by
      intro other member
      by_contra held
      rcases assign_names assigned held with old | ⟨_,same,_⟩
      · exact old (fresh other (List.mem_cons_of_mem _ member))
      · exact nodup.1 (same ▸ List.mem_map_of_mem member)
    obtain ⟨plain,last⟩ := ih nodup.2 still later fun other member => found other (List.mem_cons_of_mem _ member)
    refine ⟨List.forall_mem_cons.mpr ⟨made.2.2,plain⟩,?_⟩
    cases rest with
    | nil => exact fun _ member => absurd member List.not_mem_nil
    | cons next rest =>
      rw [List.dropLast_cons_of_ne_nil (List.cons_ne_nil _ _)]
      refine List.forall_mem_cons.mpr ⟨⟨?_,?_⟩,last⟩
      · intro same
        rcases bindVariables_names later (found next (List.mem_cons_of_mem _ List.mem_cons_self)) with old | ⟨unheld,_⟩
        · exact old (still next List.mem_cons_self)
        · exact own (same ▸ unheld)
      · intro calls same
        obtain ⟨_,second,_⟩ := Eff.except_bind_inv later
        exact own (same ▸ (bindVariable_cases second).1 calls)

/-- What the loop over the variables binds. -/
theorem lookup_bound (vars : StringMap Json) (value : Json → JsValue) (name : String) :
    ((vars.entries.map fun entry : Sigma (fun _ : String => Json) => (entry.1,value entry.2)).reverse ++ []).lookup name =
      (vars.lookup name).map value := by
  have nodup :
      ((vars.entries.map fun entry : Sigma (fun _ : String => Json) => (entry.1,value entry.2)).reverse.map Prod.fst).Nodup := by
    rw [List.map_reverse,List.nodup_reverse,List.map_map]
    exact vars.nodupKeys
  rw [List.append_nil]
  apply Option.ext
  intro held
  rw [Assoc.lookup_of_nodup nodup,List.mem_reverse,List.mem_map,Option.map_eq_some_iff]
  constructor
  · rintro ⟨entry,member,same⟩
    cases same
    exact ⟨entry.2,AList.mem_lookup_iff.mpr member,rfl⟩
  · rintro ⟨json,found,rfl⟩
    exact ⟨⟨name,json⟩,AList.mem_lookup_iff.mp found,rfl⟩

/-- The view that a script has after `setup_bindings`: `incoming` shows the request and every variable is
a property of the global object with its value. -/
def View (b : Backend) (i : Interpreter) (ctx : Ctx) (vars : StringMap Json) : Prop :=
  ∃ g, b.setupBindings i ctx vars = .ok g ∧
    (∃ incoming, g.get? "incoming" = some incoming ∧ ∀ part ∈ sections ctx,
      ∃ value, incoming.get? (Utf16.encode part.1) = some value ∧ Exact part.2 value) ∧
    ∀ name json, vars.lookup name = some json → ∃ value, g.vars.lookup name = some value ∧ Exact json value

/-- What a backend is for JSON without some members. -/
structure Sound (b : Backend) (kept : Json → Prop) : Prop where
  exact_iff : ∀ json, Exact json (b.value json) ↔ kept json
  parses : ∀ json, kept json → b.value json = parse json
  parts : ∀ ctx, ∀ part ∈ sections ctx,
    (b.value (incoming ctx)).get? (Utf16.encode part.1) = some (b.value part.2)

/-- The names of the variables allow their bindings. -/
structure Nameable (b : Backend) (vars : StringMap Json) : Prop where
  plain : ∀ entry ∈ vars.entries, entry.1 ∉ reserved
  last : ∀ entry ∈ vars.entries.dropLast, entry.1 ≠ "globalThis" ∧ (b.callsParse = true → entry.1 ≠ "JSON")

/-- What `incoming` shows of the request: the value of a variable of this name, if there is one. -/
structure Shows (kept : Json → Prop) (ctx : Ctx) (vars : StringMap Json) : Prop where
  request : vars.lookup "incoming" = none → ∀ part ∈ sections ctx, kept part.2
  shadow : ∀ json, vars.lookup "incoming" = some json → ∀ part ∈ sections ctx,
    ∃ held, json.member? part.1 = some held ∧ parse held = parse part.2

/-- Names of properties are as distinct as the names of members. -/
theorem lookup_encoded (value : Json → JsValue) (members : List (String × Json)) (name : String) :
    (members.map fun member => (Utf16.encode member.1,value member.2)).lookup (Utf16.encode name) =
      (members.lookup name).map value := by
  induction members with
  | nil => rfl
  | cons member rest ih =>
    obtain ⟨key,held⟩ := member
    rw [List.map_cons,List.lookup_cons,List.lookup_cons,ih]
    by_cases same : name = key
    · subst same
      simp
    · have apart : Utf16.encode name ≠ Utf16.encode key := fun equal => same (Utf16.encode_injective equal)
      rw [beq_false_of_ne same,beq_false_of_ne apart]

theorem parseMembers_eq_map (members : List (String × Json)) :
    parseMembers members = members.map fun member => (Utf16.encode member.1,parse member.2) := by
  induction members with
  | nil => rfl
  | cons member rest ih => rw [parseMembers,ih,List.map_cons]

theorem literalMembers_eq_map (members : List (String × Json)) :
    literalMembers members = members.map fun member => (Utf16.encode member.1,literal member.2) := by
  induction members with
  | nil => rfl
  | cons member rest ih => rw [literalMembers,ih,List.map_cons]

theorem parse_get? (json : Json) (plain : Text.parseU64 name = none) :
    (parse json).get? (Utf16.encode name) = (json.member? name).map parse := by
  cases json with
  | object members =>
    show (parseMembers members).lookup (Utf16.encode name) = (members.lookup name).map parse
    rw [parseMembers_eq_map,lookup_encoded]
  | array items =>
    show (do
      let index ← Text.parseU64 (← Utf16.decode (Utf16.encode name))
      if Utf16.encode index.repr = Utf16.encode name then (parseItems items)[index]? else none) = none
    rw [Utf16.decode_encode]
    simp [plain]
  | null => rfl
  | bool b => rfl
  | number n => rfl
  | string s => rfl

/-- The name of a section is no index of an array. -/
theorem section_name (member : part ∈ sections ctx) : Text.parseU64 part.1 = none := by
  have each : ∀ part ∈ sections ctx, Text.parseU64 part.1 = none := by
    simp only [sections,List.forall_mem_cons,List.not_mem_nil,false_imp_iff,implies_true,and_true]
    decide
  exact each part member

/-- What is bound when the names allow it. -/
theorem setupBindings_ok (names : Nameable b vars) : b.setupBindings i ctx vars =
    .ok ⟨b.value (incoming ctx),(vars.entries.map fun entry => (entry.1,b.value entry.2)).reverse ++ [],none⟩ :=
  bindVariables_ok names.plain names.last rfl fun _ => rfl

/-- The view of a backend in terms of the request and the variables. -/
theorem view_iff (sound : Sound b kept) (i : Interpreter) (ctx : Ctx) (vars : StringMap Json) :
    View b i ctx vars ↔ Nameable b vars ∧ (∀ name json, vars.lookup name = some json → kept json) ∧
      Shows kept ctx vars := by
  constructor
  · rintro ⟨g,bound,⟨incoming,held,shown⟩,bindings⟩
    have names : Nameable b vars := by
      obtain ⟨plain,last⟩ := names_of_bound (g := { incoming := b.value (Backend.incoming ctx) }) vars.nodupKeys
        (fun _ _ => rfl) bound fun entry member => by
          obtain ⟨value,found,_⟩ := bindings entry.1 entry.2 (AList.mem_lookup_iff.mpr member)
          rw [found]
          exact Option.some_ne_none _
      exact ⟨plain,last⟩
    rw [setupBindings_ok names,Except.ok.injEq] at bound
    subst bound
    have values : ∀ name json, vars.lookup name = some json → kept json := by
      intro name json given
      obtain ⟨value,found,exact⟩ := bindings name json given
      rw [lookup_bound,given,Option.map_some,Option.some.injEq] at found
      exact (sound.exact_iff json).mp (found ▸ exact)
    refine ⟨names,values,?_,?_⟩
    · intro absent part member
      rw [Globals.get?,lookup_bound,absent] at held
      cases held
      obtain ⟨value,found,exact⟩ := shown part member
      rw [sound.parts ctx part member,Option.some.injEq] at found
      exact (sound.exact_iff part.2).mp (found ▸ exact)
    · intro json given part member
      rw [Globals.get?,lookup_bound,given] at held
      cases held
      obtain ⟨value,found,exact⟩ := shown part member
      rw [sound.parses json (values _ _ given),parse_get? json (section_name member)] at found
      obtain ⟨inner,has,rfl⟩ := Option.map_eq_some_iff.mp found
      exact ⟨inner,has,(exact_parse_iff part.2 inner).mp exact⟩
  · rintro ⟨names,values,shows⟩
    refine ⟨_,setupBindings_ok names,?_,?_⟩
    · cases given : vars.lookup "incoming" with
      | none =>
        refine ⟨_,by rw [Globals.get?,lookup_bound,given]; rfl,fun part member => ?_⟩
        exact ⟨_,sound.parts ctx part member,(sound.exact_iff part.2).mpr (shows.request given part member)⟩
      | some json =>
        refine ⟨_,by rw [Globals.get?,lookup_bound,given]; rfl,fun part member => ?_⟩
        obtain ⟨inner,has,same⟩ := shows.shadow json given part member
        rw [sound.parses json (values _ _ given),parse_get? json (section_name member),has]
        exact ⟨_,rfl,(exact_parse_iff part.2 inner).mpr same⟩
    · intro name json given
      refine ⟨b.value json,by rw [lookup_bound,given]; rfl,(sound.exact_iff json).mpr (values _ _ given)⟩

theorem lookup_sections (part : String × Json) (member : part ∈ sections ctx) :
    (incoming ctx).member? part.1 = some part.2 := by
  simp only [sections,List.mem_cons,List.not_mem_nil,or_false] at member
  rcases member with rfl | rfl | rfl <;> rfl

theorem sound_boa : Sound boa (·.protoFree = true) where
  exact_iff := exact_literal_iff
  parses := literal_eq_parse
  parts ctx part member := by
    have names : ∀ property ∈ literalMembers (sections ctx ++ [("connection_id",(ctx.connectionId.map Json.string).getD .null),
        ("origin",.string ctx.requestOrigin)]), property.1 ≠ Utf16.encode "__proto__" := by
      intro property inside
      have listed := List.mem_map_of_mem (f := Prod.fst) inside
      rw [literalMembers_names] at listed
      simp only [sections,List.cons_append,List.nil_append,List.map_cons,List.map_nil] at listed
      intro same
      rw [same] at listed
      revert listed
      decide
    have plain : boa.value (incoming ctx) = _ := ofLiteral_free names
    rw [plain]
    show List.lookup _ (literalMembers _) = _
    rw [literalMembers_eq_map,lookup_encoded]
    exact congrArg (Option.map literal) (lookup_sections part member)

theorem sound_quickjs : Sound quickjs fun _ => True where
  exact_iff json := iff_of_true (exact_parse json) trivial
  parses _ _ := rfl
  parts ctx part member := by
    show (parse _).get? _ = some (parse part.2)
    rw [parse_get? _ (section_name member),lookup_sections part member,Option.map_some]

theorem incoming_protoFree (free : ∀ part ∈ sections ctx, part.2.protoFree = true) :
    (incoming ctx).protoFree = true := by
  simp only [sections,List.forall_mem_cons] at free
  obtain ⟨params,body,headers,_⟩ := free
  have others : (((ctx.connectionId.map Json.string).getD .null).protoFree) = true := by
    cases ctx.connectionId <;> rfl
  simp [incoming,sections,Json.protoFree,Json.protoFreeMembers,params,body,headers,others]

/-- The engines show the request and the variables, and both in the same way. -/
structure Fidelity (i : Interpreter) (ctx : Ctx) (vars : StringMap Json) : Prop where
  boa : View boa i ctx vars
  quickjs : View quickjs i ctx vars
  same : ∀ g g', Backend.boa.setupBindings i ctx vars = .ok g → Backend.quickjs.setupBindings i ctx vars = .ok g' →
    ∀ name, g.get? name = g'.get? name

/-- No member is named `__proto__`, every variable can be a property of the global object, only the last
one is named `globalThis` or `JSON`, and one named `incoming` repeats what it hides of the request. -/
structure Bindable (ctx : Ctx) (vars : StringMap Json) : Prop where
  request : vars.lookup "incoming" = none → ∀ part ∈ sections ctx, part.2.protoFree = true
  shadow : ∀ json, vars.lookup "incoming" = some json → ∀ part ∈ sections ctx,
    ∃ held, json.member? part.1 = some held ∧ parse held = parse part.2
  values : ∀ name json, vars.lookup name = some json → json.protoFree = true
  names : ∀ entry ∈ vars.entries, entry.1 ∉ reserved
  last : ∀ entry ∈ vars.entries.dropLast, entry.1 ≠ "globalThis" ∧ entry.1 ≠ "JSON"

theorem binding_fidelity_iff (i : Interpreter) (ctx : Ctx) (vars : StringMap Json) :
    Fidelity i ctx vars ↔ Bindable ctx vars := by
  constructor
  · intro fidelity
    obtain ⟨names,values,shows⟩ := (view_iff sound_boa i ctx vars).mp fidelity.boa
    obtain ⟨quickjs,_⟩ := (view_iff sound_quickjs i ctx vars).mp fidelity.quickjs
    exact ⟨shows.request,shows.shadow,values,names.plain,fun entry member =>
      ⟨(names.last entry member).1,(quickjs.last entry member).2 rfl⟩⟩
  · intro bindable
    have boaNames : Nameable boa vars := ⟨bindable.names,fun entry member => ⟨(bindable.last entry member).1,nofun⟩⟩
    have quickjsNames : Nameable quickjs vars :=
      ⟨bindable.names,fun entry member => ⟨(bindable.last entry member).1,fun _ => (bindable.last entry member).2⟩⟩
    refine ⟨(view_iff sound_boa i ctx vars).mpr ⟨boaNames,bindable.values,bindable.request,bindable.shadow⟩,
      (view_iff sound_quickjs i ctx vars).mpr ⟨quickjsNames,fun _ _ _ => trivial,fun _ _ _ => trivial,bindable.shadow⟩,?_⟩
    intro g g' first second name
    rw [setupBindings_ok boaNames,Except.ok.injEq] at first
    rw [setupBindings_ok quickjsNames,Except.ok.injEq] at second
    subst first second
    unfold Globals.get?
    dsimp only
    rw [lookup_bound,lookup_bound]
    cases given : vars.lookup name with
    | some json => exact congrArg some (literal_eq_parse json (bindable.values name json given))
    | none =>
      split
      · rename_i shown
        subst shown
        exact congrArg some (literal_eq_parse _ (incoming_protoFree (bindable.request given)))
      · rfl

def plainInterpreter : Interpreter where
  setProperty value _ _ := .ok value
  parseMissing _ := "JSON.parse is not a function"

/-- A request whose body has a member `__proto__`. -/
def protoRequest : Ctx where
  requestBody := AList.singleton "__proto__" (.object [("admin",.bool true)])

theorem proto_member_readable :
    (∃ g body, boa.setupBindings plainInterpreter protoRequest ∅ = .ok g ∧
      g.incoming.get? (Utf16.encode "body") = some body ∧ body.members? = some [] ∧
      body.get? (Utf16.encode "admin") = some (.bool true)) ∧
    ¬ ∀ i ctx vars, Fidelity i ctx vars := by
  constructor
  · exact ⟨_,_,rfl,rfl,rfl,rfl⟩
  · intro claimed
    obtain ⟨g,bound,⟨incoming,held,shown⟩,_⟩ := (claimed plainInterpreter protoRequest ∅).boa
    cases bound
    cases held
    obtain ⟨body,found,own,held,exact,_⟩ := shown ("body",objectOf protoRequest.requestBody)
      (List.mem_cons_of_mem _ List.mem_cons_self)
    cases found
    cases held
    obtain ⟨_,_,wrong,_⟩ := exact
    cases wrong

end Backend

end Scripting
end Ruuter
