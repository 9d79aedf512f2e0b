import Ruuter.Untagged

/-! Nested steps against top-level steps. `SameGrammar` says that the dispatcher accepts the
mapping of a nested step and gives the variant that the untagged enum gave; `Regular` says,
in terms of the mapping alone, when it does. -/
namespace Ruuter

namespace Yaml

def items : Yaml → List Yaml
  | .sequence items => items
  | _ => []

/-- The elements of the `do:` field of a body. A sequence gives the fields by position. -/
def doItems (fields : List String) : Yaml → List Yaml
  | .mapping members => ((get? members "do").map items).getD []
  | .sequence parts => (((fields.zip parts).lookup "do").map items).getD []
  | _ => []

/-- The elements of the `do:` blocks of a step. -/
def blockItems : Yaml → List Yaml
  | .mapping members =>
    blockKeys.flatMap fun block => ((get? members block.1).map (doItems block.2)).getD []
  | _ => []

/-- A value inside the `do:` blocks of a step, at any depth. -/
inductive Nested : Yaml → Yaml → Prop
  | here (member : item ∈ blockItems step) : Nested step item
  | deeper (member : item ∈ blockItems step) (inside : Nested item sub) : Nested step sub

end Yaml

/-- A mapping that is nested in the document of a DSL. -/
def DslParser.NestedIn (parser : DslParser) (content : String) (m : List (Yaml × Yaml)) : Prop :=
  ∃ yaml, parser.serde.yaml (parser.replaceConstants content) = .ok yaml ∧
    ∃ entry ∈ yaml.entries, Yaml.Nested entry.2 (.mapping m)

/-- The action keys of a mapping. -/
def actions (m : List (Yaml × Yaml)) : List String := actionStepKeys.filter (keyPresent m)

/-- The parse-time checks of a top-level step. -/
structure Checked (name : String) (m : List (Yaml × Yaml)) (step : DslStep) : Prop where
  oneAction : (actions m).length ≤ 1
  discriminator : variantHint name (keyPresent m) (strField m "call") (bareControl m) = .ok step.variant
  valid : validateStep name step = .ok ()

/-- The mapping is a step of the same kind at the top level and in a `do:` block, and it meets
the checks of the top level. -/
def SameGrammar (serde : Serde) (m : List (Yaml × Yaml)) : Prop :=
  ∀ name, ∃ json nested step,
    (Yaml.mapping m).toJson serde.toFloatText = some json ∧
    dslStep.read json = some nested ∧
    parseStep serde name (.mapping m) = .ok step ∧
    step.variant = nested.variant ∧
    Checked name m nested

/-- The variant that the keys of a mapping name. -/
inductive Discriminates (m : List (Yaml × Yaml)) : Variant → Prop
  | key (entry : (key,v) ∈ keyVariants) (present : keyPresent m key = true) : Discriminates m v
  | http (call : strField m "call" = some text) (verb : Text.startsWith text "http." = true) :
    Discriminates m .http
  | mock (call : strField m "call" = some "reflect.mock") : Discriminates m .httpMock
  | declare (call : strField m "call" = some "declare") : Discriminates m .declaration
  | field (call : strField m "call" = none) (absent : ∀ entry ∈ keyVariants, keyPresent m entry.1 = false)
    (entry : key ∈ declarationKeys) (present : keyPresent m key = true) : Discriminates m .declaration
  | control (bare : bareControl m = true) : Discriminates m .declaration

/-- Any JSON object, with its members. -/
def Reader.object : Reader (List (String × Json)) where
  read
    | .object members => some members
    | _ => none
  Fits j := ∃ members, j = .object members
  fits_iff j := by cases j <;> simp

/-- The fields of a mapping have the types of a variant's record. Of nested steps only that
they are mappings is asked here. -/
def Variant.Shape (members : List (String × Json)) : Variant → Prop
  | .iterate => (Reader.flat (iterateStep Reader.object)).Fits (.object members)
  | .detach => (Reader.flat (detachStep Reader.object)).Fits (.object members)
  | .singleFlight => (Reader.flat (singleFlightStep Reader.object)).Fits (.object members)
  | v => (v.reader false .never).Fits (.object members)

/-- The rules for `parallel_http:`. -/
structure ParallelHttpBody.Valid (body : ParallelHttpBody) : Prop where
  quota : body.aggregate = .firstN → ∃ n, body.firstN = some n ∧ n ≠ 0
  unused : body.aggregate ≠ .firstN →
    body.firstN = none ∧ body.earlyExitOn = none ∧ body.remainingPeersAfter = none
  range : ∀ lo hi, body.earlyExitOn.bind (·.statusRange) = some (lo,hi) → lo ≤ hi
  method : body.call ∈ ["http.get","http.post","http.put","http.patch","http.delete"]

/-- The rules for `detach:`, with the nested steps as they are written. -/
structure Detachable (body : DetachBody (List (String × Json))) : Prop where
  nonempty : body.body ≠ []
  timeout : body.timeoutMs ≠ some 0
  noReturn : ∀ sub ∈ body.body, sub.lookup "return" = none

def Variant.Rules (members : List (String × Json)) : Variant → Prop
  | .parallelHttp =>
    ∀ step, (Reader.flat parallelHttpStep).read (.object members) = some step → step.parallelHttp.Valid
  | .detach =>
    ∀ step, (Reader.flat (detachStep Reader.object)).read (.object members) = some step →
      Detachable step.detach
  | _ => True

/-- A `call:` that is not an HTTP call carries no arguments that an earlier variant takes. -/
structure Unshadowed (m : List (Yaml × Yaml)) (members : List (String × Json)) : Prop where
  declare : strField m "call" = some "declare" →
    ¬ Variant.Shape members .http ∧ ¬ Variant.Shape members .httpMock
  mock : strField m "call" = some "reflect.mock" → ¬ Variant.Shape members .http

/-- A mapping is a step in its own right: one action at most, keys that name a variant, the
fields of that variant, its rules, and no arguments that an earlier variant would take. -/
structure Regular (floats : FloatText) (m : List (Yaml × Yaml)) : Prop where
  oneAction : (actions m).length ≤ 1
  shape : ∃ v members, Discriminates m v ∧ (Yaml.mapping m).toJson floats = some (.object members) ∧
    v.Shape members ∧ v.Rules members ∧ Unshadowed m members

section Dispatch

variable {m : List (Yaml × Yaml)}

/-- With one action at most, two action keys that are present are the same. -/
theorem only_action (one : (actions m).length ≤ 1) (first : a ∈ actionStepKeys)
    (second : b ∈ actionStepKeys) (presentA : keyPresent m a = true) (presentB : keyPresent m b = true) :
    a = b := by
  have memberA : a ∈ actions m := List.mem_filter.mpr ⟨first,presentA⟩
  have memberB : b ∈ actions m := List.mem_filter.mpr ⟨second,presentB⟩
  match held : actions m with
  | [] => simp [held] at memberA
  | [key] =>
    rw [held] at memberA memberB
    rw [List.mem_singleton.mp memberA,List.mem_singleton.mp memberB]
  | _ :: _ :: _ => simp [held] at one

theorem call_present (call : strField m "call" = some text) : keyPresent m "call" = true := by
  unfold strField at call
  unfold keyPresent
  cases found : Yaml.get? m "call" with
  | none => simp [found] at call
  | some value => rfl

theorem mem_of_get? (found : Yaml.get? m name = some value) : (.string name,value) ∈ m := by
  induction m with
  | nil => cases found
  | cons member rest ih =>
    obtain ⟨key,held⟩ := member
    unfold Yaml.get? at found
    cases later : Yaml.get? rest name with
    | some other =>
      rw [later] at found
      cases found
      exact List.mem_cons_of_mem _ (ih later)
    | none =>
      simp only [later,Option.none_or] at found
      cases key with
      | string s =>
        simp only [Yaml.isString,decide_eq_true_eq] at found
        split at found
        · rename_i same
          subst same
          cases found
          exact List.mem_cons_self
        · cases found
      | _ => simp [Yaml.isString] at found

/-- A bare control-flow step has no action. -/
theorem bare_absent (bare : bareControl m = true) (action : key ∈ actionStepKeys) :
    keyPresent m key = false := by
  by_contra present
  obtain ⟨value,found⟩ := Option.isSome_iff_exists.mp (Bool.not_eq_false _ ▸ present)
  have control := List.all_eq_true.mp bare _ (mem_of_get? found)
  have apart : ∀ key ∈ actionStepKeys, key ∉ controlKeys := by decide
  exact apart key action (by simpa [Yaml.asStr?] using control)

theorem keyVariants_action : ∀ entry ∈ keyVariants, entry.1 ∈ actionStepKeys ∧ entry.1 ≠ "call" := by
  decide

/-- No other action next to a `call:`. -/
theorem absent_of_call (one : (actions m).length ≤ 1) (call : strField m "call" = some text) :
    ∀ entry ∈ keyVariants, keyPresent m entry.1 = false := by
  intro entry member
  by_contra present
  obtain ⟨action,different⟩ := keyVariants_action entry member
  exact different (only_action one action (by decide) (by simpa using present) (call_present call))

theorem callHint_iff (one : (actions m).length ≤ 1) (call : strField m "call" = some text) :
    (if text = "declare" then .ok .declaration
      else if text = "reflect.mock" then .ok .httpMock
      else if Text.startsWith text "http." then .ok .http
      else .error e : Except RuuterError Variant) = .ok v ↔ Discriminates m v := by
  constructor
  · intro hint
    split at hint
    · rename_i declare
      cases hint
      exact .declare (declare ▸ call)
    · split at hint
      · rename_i mock
        cases hint
        exact .mock (mock ▸ call)
      · split at hint
        · rename_i verb
          cases hint
          exact .http call verb
        · cases hint
  · intro given
    cases given with
    | key entry present =>
      have absent := absent_of_call one call _ entry
      rw [absent] at present
      cases present
    | http held verb =>
      cases call.symm.trans held
      have notDeclare : text ≠ "declare" := by rintro rfl; exact absurd verb (by decide)
      have notMock : text ≠ "reflect.mock" := by rintro rfl; exact absurd verb (by decide)
      simp [notDeclare,notMock,verb]
    | mock held =>
      cases call.symm.trans held
      rfl
    | declare held =>
      cases call.symm.trans held
      rfl
    | field none _ _ _ => cases call.symm.trans none
    | control bare =>
      have absent := bare_absent bare (by decide : "call" ∈ actionStepKeys)
      rw [call_present call] at absent
      cases absent

theorem keyVariants_unique : ∀ entry ∈ keyVariants, ∀ other ∈ keyVariants, entry.1 = other.1 → entry = other := by
  decide

theorem keyHint_iff (one : (actions m).length ≤ 1) (call : strField m "call" = none) :
    (match keyVariants.find? fun entry => keyPresent m entry.1 with
      | some entry => .ok entry.2
      | none => if declarationKeys.any (keyPresent m) || bareControl m then .ok .declaration
        else .error e : Except RuuterError Variant) = .ok v ↔ Discriminates m v := by
  cases found : keyVariants.find? fun entry => keyPresent m entry.1 with
  | some entry =>
    have member := List.mem_of_find?_eq_some found
    have present : keyPresent m entry.1 = true := by simpa using List.find?_some found
    constructor
    · intro hint
      cases hint
      exact .key member present
    · intro given
      cases given with
      | key other held =>
        have same := only_action one (keyVariants_action _ member).1 (keyVariants_action _ other).1
          present held
        rw [keyVariants_unique _ member _ other same]
      | http held _ => cases call.symm.trans held
      | mock held => cases call.symm.trans held
      | declare held => cases call.symm.trans held
      | field _ absent _ _ =>
        rw [absent entry member] at present
        cases present
      | control bare =>
        rw [bare_absent bare (keyVariants_action _ member).1] at present
        cases present
  | none =>
    have absent : ∀ entry ∈ keyVariants, keyPresent m entry.1 = false := by
      intro entry member
      simpa using List.find?_eq_none.mp found entry member
    constructor
    · intro hint
      simp only at hint
      split at hint
      · rename_i declared
        cases hint
        rcases Bool.or_eq_true_iff.mp declared with field | bare
        · obtain ⟨key,member,present⟩ := List.any_eq_true.mp field
          exact .field call absent member present
        · exact .control bare
      · cases hint
    · intro given
      cases given with
      | key entry present =>
        rw [absent _ entry] at present
        cases present
      | http held _ => cases call.symm.trans held
      | mock held => cases call.symm.trans held
      | declare held => cases call.symm.trans held
      | field _ _ member present =>
        have some_field : declarationKeys.any (keyPresent m) = true :=
          List.any_eq_true.mpr ⟨_,member,present⟩
        simp [some_field]
      | control bare => simp [bare]

/-- What the dispatcher takes a mapping for. -/
theorem variantHint_iff (name : String) :
    variantHint name (keyPresent m) (strField m "call") (bareControl m) = .ok v ↔
      (actions m).length ≤ 1 ∧ Discriminates m v := by
  unfold variantHint
  simp only
  by_cases many : 1 < (actionStepKeys.filter (keyPresent m)).length
  · rw [if_pos many]
    have not_one : ¬ (actions m).length ≤ 1 := by simpa [actions] using many
    simp [not_one]
  · rw [if_neg many]
    have one : (actions m).length ≤ 1 := by simpa [actions] using many
    simp only [one,true_and]
    cases call : strField m "call" with
    | some text => exact callHint_iff one call
    | none => exact keyHint_iff one call

end Dispatch
section Checks

theorem rejectIf_ok {p : Prop} [Decidable p] {e : ε} : rejectIf p e = .ok () ↔ ¬ p := by
  unfold rejectIf
  by_cases h : p <;> simp [h]

theorem then_ok {first : Except ε Unit} {rest : Unit → Except ε Unit} :
    (first >>= rest) = .ok () ↔ first = .ok () ∧ rest () = .ok () := by
  cases first <;> simp [bind,Except.bind]

theorem validateDetach_iff : validateDetach name body = .ok () ↔
    body.body ≠ [] ∧ body.timeoutMs ≠ some 0 ∧ ∀ sub ∈ body.body, sub.variant ≠ .returnStep := by
  simp only [validateDetach,then_ok,rejectIf_ok,List.isEmpty_iff]
  simp

theorem validateAggregate_iff : validateAggregate fail body = .ok () ↔
    (body.aggregate = .firstN → ∃ n, body.firstN = some n ∧ n ≠ 0) ∧
    (body.aggregate ≠ .firstN →
      body.firstN = none ∧ body.earlyExitOn = none ∧ body.remainingPeersAfter = none) := by
  unfold validateAggregate
  cases body.aggregate <;> simp only [then_ok,rejectIf_ok]
  · simp
  · simp
  · cases body.firstN <;> simp

theorem validateParallelHttp_iff : validateParallelHttp name body = .ok () ↔ body.Valid := by
  unfold validateParallelHttp
  simp only [then_ok,validateAggregate_iff]
  cases given : body.earlyExitOn.bind (·.statusRange) with
  | none =>
    simp only [then_ok,rejectIf_ok,not_not,true_and]
    constructor
    · rintro ⟨⟨quota,unused⟩,method⟩
      exact ⟨quota,unused,by simp [given],method⟩
    · intro valid
      exact ⟨⟨valid.quota,valid.unused⟩,valid.method⟩
  | some range =>
    simp only [then_ok,rejectIf_ok,not_not]
    constructor
    · rintro ⟨⟨quota,unused⟩,ordered,method⟩
      refine ⟨quota,unused,?_,method⟩
      intro lo hi held
      cases given.symm.trans held
      exact UInt16.not_lt.mp ordered
    · intro valid
      exact ⟨⟨valid.quota,valid.unused⟩,UInt16.not_lt.mpr (valid.range _ _ given),valid.method⟩

end Checks

theorem parseStep_iff {serde : Serde} {m : List (Yaml × Yaml)} :
    parseStep serde name (.mapping m) = .ok step ↔
      ∃ v json, variantHint name (keyPresent m) (strField m "call") (bareControl m) = .ok v ∧
        (Yaml.mapping m).toJson serde.toFloatText = some json ∧
        (v.reader false dslStep).read json = some step ∧ validateStep name step = .ok () := by
  unfold parseStep
  simp only
  cases variantHint name (keyPresent m) (strField m "call") (bareControl m) with
  | error e => simp [bind,Except.bind]
  | ok v =>
    cases (Yaml.mapping m).toJson serde.toFloatText with
    | none => simp [bind,Except.bind]
    | some json =>
      simp only [bind,Except.bind]
      cases read : (v.reader false dslStep).read json with
      | none => simp [read]
      | some found =>
        simp only [Except.ok.injEq,Option.some.injEq]
        constructor
        · intro parsed
          cases valid : validateStep name found with
          | error e => simp [valid] at parsed
          | ok u =>
            rw [valid] at parsed
            cases parsed
            exact ⟨v,json,rfl,rfl,read,valid⟩
        · rintro ⟨_,_,rfl,rfl,held,valid⟩
          cases read.symm.trans held
          rw [valid]
          rfl

namespace Yaml

variable {floats : FloatText}

theorem toJson_mapping (given : (Yaml.mapping m).toJson floats = some j) :
    ∃ entries, toJsonMembers floats m = some entries ∧ j = .object (toObject [] entries) := by
  simp only [toJson,Option.map_eq_some_iff] at given
  obtain ⟨entries,converted,rfl⟩ := given
  exact ⟨entries,converted,rfl⟩

theorem lookup_mapping (field : isFieldName name = true)
    (given : (Yaml.mapping m).toJson floats = some (.object members)) :
    members.lookup name = (get? m name).bind (toJson floats) := by
  obtain ⟨entries,converted,same⟩ := toJson_mapping given
  cases same
  rw [lookup_toObject floats field converted]
  cases get? m name <;> rfl

theorem toJson_of_member (given : toJsonMembers floats m = some entries) (member : (key,value) ∈ m) :
    ∃ j, toJson floats value = some j := by
  induction m generalizing entries with
  | nil => cases member
  | cons head rest ih =>
    obtain ⟨key',value'⟩ := head
    simp only [toJsonMembers,Option.bind_eq_some_iff,Option.map_eq_some_iff] at given
    obtain ⟨_,_,j,converted,others,given,rfl⟩ := given
    rcases List.mem_cons.mp member with same | later
    · cases same
      exact ⟨j,converted⟩
    · exact ih given later

theorem toJson_of_item {items : List Yaml} (given : toJsonList floats items = some converted)
    (member : item ∈ items) :
    ∃ j, toJson floats item = some j := by
  induction items generalizing converted with
  | nil => cases member
  | cons head rest ih =>
    simp only [toJsonList,Option.bind_eq_some_iff,Option.map_eq_some_iff] at given
    obtain ⟨j,first,others,given,rfl⟩ := given
    rcases List.mem_cons.mp member with rfl | later
    · exact ⟨j,first⟩
    · exact ih given later

theorem item_of_toJson {items : List Yaml} (given : toJsonList floats items = some converted)
    (member : j ∈ converted) :
    ∃ item ∈ items, toJson floats item = some j := by
  induction items generalizing converted with
  | nil =>
    cases given
    cases member
  | cons head rest ih =>
    simp only [toJsonList,Option.bind_eq_some_iff,Option.map_eq_some_iff] at given
    obtain ⟨first,read,others,given,rfl⟩ := given
    rcases List.mem_cons.mp member with rfl | later
    · exact ⟨head,List.mem_cons_self,read⟩
    · obtain ⟨item,inside,read⟩ := ih given later
      exact ⟨item,List.mem_cons_of_mem _ inside,read⟩

/-- Fields by position keep their place in the JSON form. -/
theorem lookup_zip {fields : List String} (given : toJsonList floats parts = some converted) :
    (fields.zip converted).lookup name = ((fields.zip parts).lookup name).bind (toJson floats) := by
  induction parts generalizing converted fields with
  | nil =>
    cases given
    simp
  | cons head rest ih =>
    simp only [toJsonList,Option.bind_eq_some_iff,Option.map_eq_some_iff] at given
    obtain ⟨first,read,others,given,rfl⟩ := given
    cases fields with
    | nil => simp
    | cons field fields =>
      simp only [List.zip_cons_cons,List.lookup_cons]
      cases name == field with
      | true => exact read.symm
      | false => exact ih given

/-- The elements of a sequence, from the JSON form of the sequence. -/
theorem items_of_toJson (value : Yaml) (j : Json) (given : toJson floats value = some j)
    (item : Json) (member : item ∈ j.items) :
    ∃ y ∈ value.items, toJson floats y = some item := by
  cases value with
  | sequence items =>
    simp only [toJson,Option.map_eq_some_iff] at given
    obtain ⟨converted,given,rfl⟩ := given
    exact item_of_toJson given member
  | mapping m =>
    obtain ⟨entries,_,rfl⟩ := toJson_mapping given
    cases member
  | tagged tag value =>
    simp only [toJson,Option.map_eq_some_iff] at given
    obtain ⟨_,_,rfl⟩ := given
    cases member
  | _ =>
    cases given
    cases member

/-- Lists taken from a field and from its JSON form. -/
theorem field_of_toJson {f : Json → List Json} {g : Yaml → List Yaml}
    (each : ∀ value j, toJson floats value = some j → ∀ item ∈ f j, ∃ y ∈ g value, toJson floats y = some item)
    {found : Option Yaml} (member : item ∈ ((found.bind (toJson floats)).map f).getD []) :
    ∃ y ∈ (found.map g).getD [], toJson floats y = some item := by
  cases found with
  | none => cases member
  | some value =>
    simp only [Option.bind_some] at member
    cases read : toJson floats value with
    | none =>
      rw [read] at member
      cases member
    | some j =>
      rw [read] at member
      exact each value j read item member

theorem doItems_of_toJson (value : Yaml) (j : Json) (given : toJson floats value = some j)
    (item : Json) (member : item ∈ Json.doItems fields j) :
    ∃ y ∈ value.doItems fields, toJson floats y = some item := by
  unfold Json.doItems at member
  cases value with
  | mapping m =>
    obtain ⟨entries,_,rfl⟩ := toJson_mapping given
    have field : isFieldName "do" = true := by decide
    simp only [Source.ofJson,Option.bind_some,lookup_mapping field given] at member
    exact field_of_toJson items_of_toJson member
  | sequence parts =>
    simp only [toJson,Option.map_eq_some_iff] at given
    obtain ⟨converted,given,rfl⟩ := given
    simp only [Source.ofJson] at member
    split at member
    · simp only [Option.bind_some,lookup_zip given] at member
      exact field_of_toJson items_of_toJson member
    · cases member
  | tagged tag value =>
    simp only [toJson,Option.map_eq_some_iff] at given
    obtain ⟨inner,_,rfl⟩ := given
    have other : ("do" == "!" ++ tag) = false := by
      apply beq_false_of_ne
      intro same
      have := congrArg String.toList same
      simp at this
    simp [Source.ofJson,List.lookup_cons,other] at member
  | _ =>
    cases given
    cases member

/-- The nested steps that a deserialiser sees are those of the document. -/
theorem blockItems_of_toJson (given : (Yaml.mapping m).toJson floats = some (.object members))
    (member : item ∈ Json.blockItems members) :
    ∃ y ∈ (Yaml.mapping m).blockItems, toJson floats y = some item := by
  obtain ⟨block,inside,member⟩ := List.mem_flatMap.mp member
  have fields : ∀ block ∈ blockKeys, isFieldName block.1 = true := by decide
  rw [lookup_mapping (fields block inside) given] at member
  obtain ⟨y,held,converted⟩ := field_of_toJson doItems_of_toJson member
  exact ⟨y,List.mem_flatMap.mpr ⟨block,inside,held⟩,converted⟩

theorem toJson_of_doItem (given : toJson floats body = some j) (member : y ∈ body.doItems fields) :
    ∃ j', toJson floats y = some j' := by
  have listed : ∀ block inner, toJson floats block = some inner → y ∈ block.items →
      ∃ j', toJson floats y = some j' := by
    intro block inner given member
    cases block with
    | sequence items =>
      simp only [toJson,Option.map_eq_some_iff] at given
      obtain ⟨converted,given,_⟩ := given
      exact toJson_of_item given member
    | _ => cases member
  cases body with
  | mapping m =>
    obtain ⟨entries,converted,_⟩ := toJson_mapping given
    simp only [doItems] at member
    cases found : get? m "do" with
    | none => simp [found] at member
    | some block =>
      obtain ⟨inner,read⟩ := toJson_of_member converted (mem_of_get? found)
      exact listed block inner read (by simpa [found] using member)
  | sequence parts =>
    simp only [toJson,Option.map_eq_some_iff] at given
    obtain ⟨converted,given,_⟩ := given
    simp only [doItems] at member
    cases found : (fields.zip parts).lookup "do" with
    | none => simp [found] at member
    | some block =>
      have inside : block ∈ parts := (List.of_mem_zip (mem_of_lookup found)).2
      obtain ⟨inner,read⟩ := toJson_of_item given inside
      exact listed block inner read (by simpa [found] using member)
  | _ => cases member

/-- Every nested value of a document with a JSON form has one. -/
theorem toJson_of_nested (nested : Nested step y) (given : toJson floats step = some j) :
    ∃ j', toJson floats y = some j' := by
  have inside : ∀ step j item, toJson floats step = some j → item ∈ blockItems step →
      ∃ j', toJson floats item = some j' := by
    intro step j item given member
    cases step with
    | mapping m =>
      obtain ⟨entries,converted,_⟩ := toJson_mapping given
      obtain ⟨block,_,member⟩ := List.mem_flatMap.mp member
      cases found : get? m block.1 with
      | none => simp [found] at member
      | some body =>
        obtain ⟨inner,read⟩ := toJson_of_member converted (mem_of_get? found)
        exact toJson_of_doItem read (by simpa [found] using member)
    | _ => cases member
  induction nested generalizing j with
  | here member => exact inside _ _ _ given member
  | deeper member _ ih =>
    obtain ⟨j',converted⟩ := inside _ _ _ given member
    exact ih converted

end Yaml

theorem depth_of_blockItem (member : item ∈ Json.blockItems members) :
    item.depth < (Json.object members).depth := by
  obtain ⟨block,_,member⟩ := List.mem_flatMap.mp member
  cases found : members.lookup block.1 with
  | none => simp [found] at member
  | some body =>
    simp only [found,Option.map_some,Option.getD_some,Json.doItems] at member
    have outer : body.depth ≤ Json.depthMembers members :=
      Json.depth_le_depthMembers (mem_of_lookup found)
    cases source : Source.ofJson block.2 body with
    | none => simp [source] at member
    | some s =>
      simp only [source,Option.bind_some] at member
      cases listed : s.members.lookup "do" with
      | none => simp [listed] at member
      | some value =>
        have middle : value.depth < body.depth :=
          Reader.ofJson_below source (Nat.lt_succ_self _) _ (mem_of_lookup listed)
        simp only [listed,Option.map_some,Option.getD_some] at member
        cases value with
        | array items =>
          have inner : item.depth ≤ Json.depthList items := Json.depth_le_depthList member
          simp only [Json.depth] at middle ⊢
          omega
        | _ => cases member

end Ruuter
