import Ruuter.NestedSteps

/-! When nested steps obey the grammar of top-level steps. The untagged enum and the
dispatcher agree on a mapping exactly when it is `Regular`; over a whole document the two
sides are compared from the inside out. -/
namespace Ruuter

open Reader

theorem actionKey_action {u : Variant} (key : u.actionKey = some name) :
    name ∈ actionStepKeys ∧ Yaml.isFieldName name = true := by
  cases u <;> cases key <;> decide

theorem eq_of_actionKey {u : Variant} (key : u.actionKey = some name) (entry : (name,v) ∈ keyVariants) :
    u = v := by
  have unique : ∀ entry ∈ keyVariants, u.actionKey = some entry.1 → u = entry.2 := by
    cases u <;> decide
  exact unique _ entry key

theorem actionKey_cases {u : Variant} (key : u.actionKey = some name) :
    name = "call" ∨ ∃ v, (name,v) ∈ keyVariants := by
  have listed : name = "call" ∨ name ∈ keyVariants.map Prod.fst := by
    cases u <;> cases key <;> decide
  rcases listed with call | listed
  · exact .inl call
  · obtain ⟨entry,member,rfl⟩ := List.mem_map.mp listed
    exact .inr ⟨entry.2,member⟩

theorem call_variants {u : Variant} (key : u.actionKey = some "call") : u = .http ∨ u = .httpMock := by
  cases u with
  | http => exact .inl rfl
  | httpMock => exact .inr rfl
  | _ => exact absurd key (by decide)

theorem exists_actionKey {u v : Variant} (before : untaggedOrder.idxOf u < untaggedOrder.idxOf v) :
    ∃ name, u.actionKey = some name := by
  cases u with
  | declaration =>
    cases v <;> exact absurd before (by decide)
  | _ => exact ⟨_,rfl⟩

section Mapping

variable {floats : FloatText} {m : List (Yaml × Yaml)} {members : List (String × Json)}

theorem present_of_fits {u : Variant} (json : (Yaml.mapping m).toJson floats = some (.object members))
    (key : u.actionKey = some name) (fits : (u.reader buffered step).Fits (.object members)) :
    keyPresent m name = true := by
  have found := key_of_fits key fits
  rw [Yaml.lookup_mapping (actionKey_action key).2 json] at found
  unfold keyPresent
  cases held : Yaml.get? m name with
  | none => simp [held] at found
  | some value => rfl

theorem call_text (json : (Yaml.mapping m).toJson floats = some (.object members))
    (call : members.lookup "call" = some (.string text)) : strField m "call" = some text := by
  rw [Yaml.lookup_mapping (by decide) json] at call
  unfold strField
  cases held : Yaml.get? m "call" with
  | none => simp [held] at call
  | some value =>
    simp only [held,Option.bind_some] at call ⊢
    cases value with
    | string s =>
      cases call
      rfl
    | sequence items =>
      simp only [Yaml.toJson,Option.map_eq_some_iff] at call
      obtain ⟨_,_,impossible⟩ := call
      cases impossible
    | mapping inner =>
      obtain ⟨_,_,impossible⟩ := Yaml.toJson_mapping call
      cases impossible
    | tagged tag inner =>
      simp only [Yaml.toJson,Option.map_eq_some_iff] at call
      obtain ⟨_,_,impossible⟩ := call
      cases impossible
    | _ => cases call

/-- No variant that is tried before the one the keys name accepts the mapping. -/
theorem earlier_none (one : (actions m).length ≤ 1) (given : Discriminates m v)
    (json : (Yaml.mapping m).toJson floats = some (.object members))
    (unshadowed : Unshadowed m members) {u : Variant}
    (before : untaggedOrder.idxOf u < untaggedOrder.idxOf v) :
    (u.reader true dslStep).read (.object members) = none := by
  apply read_eq_none.mpr
  intro fits
  obtain ⟨name,key⟩ := exists_actionKey before
  have present := present_of_fits json key fits
  have action := (actionKey_action key).1
  -- Next to a `call:` only the two calls can be meant.
  have calls : ∀ text, strField m "call" = some text → u = .http ∨ u = .httpMock := by
    intro text call
    rw [only_action one action (by decide) present (call_present call)] at key
    exact call_variants key
  cases given with
  | key entry held =>
    have same := only_action one action (keyVariants_action _ entry).1 present held
    rw [same] at key
    have itself : u = v := eq_of_actionKey key entry
    rw [itself] at before
    exact absurd before (Nat.lt_irrefl _)
  | http call verb =>
    rcases calls _ call with rfl | rfl <;> exact absurd before (by decide)
  | mock call =>
    rcases calls _ call with rfl | rfl
    · exact unshadowed.mock call fits
    · exact absurd before (by decide)
  | declare call =>
    rcases calls _ call with rfl | rfl
    · exact (unshadowed.declare call).1 fits
    · exact (unshadowed.declare call).2 fits
  | field none absent _ _ =>
    rcases actionKey_cases key with rfl | ⟨other,entry⟩
    · obtain ⟨text,found⟩ := call_of_fits key fits
      cases none.symm.trans (call_text json found)
    · rw [absent _ entry] at present
      cases present
  | control bare =>
    rw [bare_absent bare action] at present
    cases present

end Mapping

/-- The variant by which a nested step is read. -/
theorem dslStep_reader (read : dslStep.read j = some step) :
    (step.variant.reader true dslStep).read j = some step ∧
      ∀ u, untaggedOrder.idxOf u < untaggedOrder.idxOf step.variant →
        (u.reader true dslStep).read j = none := by
  rw [dslStep_read] at read
  obtain ⟨v,_,held,earlier⟩ := findSome?_iff.mp read
  obtain rfl := reader_variant held
  refine ⟨held,?_⟩
  intro u before
  exact earlier u (by cases u <;> decide) before

theorem object_of_reader {v : Variant} (fits : (v.reader buffered step).Fits j) :
    ∃ members, j = .object members := by
  cases v <;>
    (obtain ⟨members,same,_⟩ := fits
     exact ⟨members,same⟩)

theorem object_of_dslStep (fits : dslStep.Fits j) : Reader.object.Fits j := by
  obtain ⟨step,read⟩ := exists_read fits
  exact object_of_reader (fits_of_read (dslStep_reader read).1)

section Shape

variable {members : List (String × Json)}

theorem shape_of_fits {v : Variant} (fits : (v.reader false dslStep).Fits (.object members)) :
    v.Shape members := by
  have weaker : ∀ item ∈ Json.blockItems members, dslStep.Fits item → Reader.object.Fits item :=
    fun _ _ => object_of_dslStep
  cases v with
  | iterate => exact iterateStep_fits weaker fits
  | detach => exact detachStep_fits weaker fits
  | singleFlight => exact singleFlightStep_fits weaker fits
  | _ => exact fits

theorem fits_of_shape {v : Variant} (shape : v.Shape members)
    (inside : ∀ item ∈ Json.blockItems members, Reader.object.Fits item → dslStep.Fits item) :
    (v.reader false dslStep).Fits (.object members) := by
  cases v with
  | iterate => exact iterateStep_fits inside shape
  | detach => exact detachStep_fits inside shape
  | singleFlight => exact singleFlightStep_fits inside shape
  | _ => exact shape

/-- A `return:` step has the key. -/
theorem lookup_return (read : dslStep.read (.object sub) = some step)
    (variant : step.variant = .returnStep) : (sub.lookup "return").isSome := by
  have held := (dslStep_reader read).1
  rw [variant] at held
  have key : Variant.returnStep.actionKey = some "return" := rfl
  exact key_of_fits key (fits_of_read held)

theorem object_read (read : Reader.object.read j = some sub) : j = .object sub := by
  cases j with
  | object members =>
    cases read
    rfl
  | _ => cases read

/-- The steps of a detached block and the mappings they were read from. -/
theorem detach_pairs {d : DetachStep DslStep} {d' : DetachStep (List (String × Json))}
    (held : (flat (detachStep dslStep)).read (.object members) = some d)
    (held' : (flat (detachStep Reader.object)).read (.object members) = some d') :
    (∀ step ∈ d.detach.body, ∃ sub ∈ d'.detach.body, dslStep.read (.object sub) = some step) ∧
      ∀ sub ∈ d'.detach.body, Json.object sub ∈ Json.blockItems members ∧
        ∃ step ∈ d.detach.body, dslStep.read (.object sub) = some step := by
  obtain ⟨_,items,inside,steps,subs⟩ := detachStep_reads held held'
  obtain ⟨toStep,fromStep⟩ := mem_mapM steps
  obtain ⟨toSub,fromSub⟩ := mem_mapM subs
  constructor
  · intro step member
    obtain ⟨item,listed,read⟩ := fromStep step member
    obtain ⟨sub,found,raw⟩ := toSub item listed
    obtain rfl := object_read raw
    exact ⟨sub,found,read⟩
  · intro sub member
    obtain ⟨item,listed,raw⟩ := fromSub sub member
    obtain rfl := object_read raw
    exact ⟨inside _ listed,toStep _ listed⟩

/-- The rules on the mapping give the checks on the step. -/
theorem valid_of_rules {v : Variant} (shape : v.Shape members) (rules : v.Rules members)
    (read : (v.reader false dslStep).read (.object members) = some step) :
    validateStep name step = .ok () := by
  cases v with
  | parallelHttp =>
    obtain ⟨p,held,rfl⟩ := Option.map_eq_some_iff.mp read
    exact validateParallelHttp_iff.mpr (rules p held)
  | detach =>
    obtain ⟨d,held,rfl⟩ := Option.map_eq_some_iff.mp read
    obtain ⟨d',held'⟩ := exists_read shape
    obtain ⟨toSub,toStep⟩ := detach_pairs held held'
    have raw := rules d' held'
    have timeout := (detachStep_reads held held').1
    apply validateDetach_iff.mpr
    refine ⟨?_,timeout ▸ raw.timeout,?_⟩
    · intro empty
      obtain ⟨sub,rest,some_sub⟩ := List.exists_cons_of_ne_nil raw.nonempty
      obtain ⟨_,step,member,_⟩ := toStep sub (by simp [some_sub])
      rw [empty] at member
      cases member
    · intro step member returns
      obtain ⟨sub,listed,read⟩ := toSub step member
      have key := lookup_return read returns
      rw [raw.noReturn sub listed] at key
      cases key
  | _ =>
    obtain ⟨_,_,rfl⟩ := Option.map_eq_some_iff.mp read
    rfl

/-- The checks on the step give the rules on the mapping, when `return:` makes a nested step
a `return` step. -/
theorem rules_of_valid {v : Variant}
    (read : (v.reader false dslStep).read (.object members) = some step)
    (valid : validateStep name step = .ok ())
    (returns : ∀ sub nested, .object sub ∈ Json.blockItems members →
      dslStep.read (.object sub) = some nested → (sub.lookup "return").isSome →
      nested.variant = .returnStep) : v.Rules members := by
  cases v with
  | parallelHttp =>
    intro p held
    obtain ⟨p',held',rfl⟩ := Option.map_eq_some_iff.mp read
    cases held.symm.trans held'
    exact validateParallelHttp_iff.mp valid
  | detach =>
    intro d' held'
    obtain ⟨d,held,rfl⟩ := Option.map_eq_some_iff.mp read
    obtain ⟨nonempty,timeout,noReturn⟩ := validateDetach_iff.mp valid
    obtain ⟨toSub,toStep⟩ := detach_pairs held held'
    have same := (detachStep_reads held held').1
    refine ⟨?_,same ▸ timeout,?_⟩
    · intro empty
      obtain ⟨step,rest,some_step⟩ := List.exists_cons_of_ne_nil nonempty
      obtain ⟨sub,member,_⟩ := toSub step (by simp [some_step])
      rw [empty] at member
      cases member
    · intro sub member
      by_contra key
      obtain ⟨inside,nested,listed,read⟩ := toStep sub member
      have some_key := Option.isSome_iff_ne_none.mpr key
      exact noReturn nested listed (returns sub nested inside read some_key)
  | _ => trivial

end Shape
section Agreement

variable {serde : Serde} {m : List (Yaml × Yaml)}

/-- A regular mapping whose nested steps are read is a step of one kind for both parsers. -/
theorem same_of_regular (regular : Regular serde.toFloatText m)
    (inside : ∀ members, (Yaml.mapping m).toJson serde.toFloatText = some (.object members) →
      ∀ item ∈ Json.blockItems members, Reader.object.Fits item → dslStep.Fits item) :
    SameGrammar serde m := by
  intro name
  obtain ⟨v,members,given,json,shape,rules,unshadowed⟩ := regular.shape
  have hint := (variantHint_iff name).mpr ⟨regular.oneAction,given⟩
  obtain ⟨step,read⟩ := exists_read (fits_of_shape shape (inside members json))
  have valid : validateStep name step = .ok () := valid_of_rules shape rules read
  have parsed : parseStep serde name (.mapping m) = .ok step :=
    parseStep_iff.mpr ⟨v,_,hint,json,read,valid⟩
  have nested : dslStep.read (.object members) = some step := by
    rw [dslStep_read]
    apply findSome?_iff.mpr
    refine ⟨v,by cases v <;> decide,buffered_read read,?_⟩
    intro u _ before
    exact earlier_none regular.oneAction given json unshadowed before
  obtain rfl := reader_variant read
  exact ⟨_,step,step,json,nested,parsed,rfl,regular.oneAction,hint,valid⟩

/-- A mapping that both parsers take for a step of one kind is regular. -/
theorem regular_of_same (same : SameGrammar serde m)
    (returns : ∀ members, (Yaml.mapping m).toJson serde.toFloatText = some (.object members) →
      ∀ sub nested, .object sub ∈ Json.blockItems members → dslStep.read (.object sub) = some nested →
        (sub.lookup "return").isSome → nested.variant = .returnStep) :
    Regular serde.toFloatText m := by
  obtain ⟨json,nested,step,converted,nestedRead,parsed,variant,checked⟩ := same ""
  obtain ⟨v,json',hint,converted',read,valid⟩ := parseStep_iff.mp parsed
  cases converted.symm.trans converted'
  obtain ⟨one,given⟩ := (variantHint_iff _).mp hint
  obtain ⟨members,rfl⟩ := object_of_reader (fits_of_read read)
  obtain ⟨_,earlier⟩ := dslStep_reader nestedRead
  have named : nested.variant = v := variant.symm.trans (reader_variant read)
  rw [named] at earlier
  have refused : ∀ u, untaggedOrder.idxOf u < untaggedOrder.idxOf v →
      ¬ (u.reader true dslStep).Fits (.object members) :=
    fun u before => read_eq_none.mp (earlier u before)
  have unshadowed : Unshadowed m members := by
    constructor
    · intro call
      have declared := (variantHint_iff "").mpr ⟨one,Discriminates.declare call⟩
      cases hint.symm.trans declared
      exact ⟨refused .http (by decide),refused .httpMock (by decide)⟩
    · intro call
      have mocked := (variantHint_iff "").mpr ⟨one,Discriminates.mock call⟩
      cases hint.symm.trans mocked
      exact refused .http (by decide)
  exact ⟨one,v,members,given,converted,shape_of_fits (fits_of_read read),
    rules_of_valid read valid (returns members converted),unshadowed⟩

end Agreement

/-- The JSON form of a tagged value is read as a declaration without fields. -/
theorem dslStep_fits_tagged (tag : String) (j : Json) : dslStep.Fits (.object [("!" ++ tag,j)]) := by
  have other : ∀ name, Yaml.isFieldName name = true → [("!" ++ tag,j)].lookup name = none := by
    intro name field
    have differs : (name == "!" ++ tag) = false := by
      apply beq_false_of_ne
      rintro rfl
      simp [Yaml.isFieldName] at field
    simp [List.lookup_cons,differs]
  have absent : ∀ names : List String, names.all Yaml.isFieldName = true →
      ∀ name ∈ names, [("!" ++ tag,j)].lookup name = none :=
    fun names fields name member => other name (List.all_eq_true.mp fields name member)
  have declared : declarationStep.Fits { members := [("!" ++ tag,j)] } := by
    unfold declarationStep baseStepFields Layout.defaultedNone Layout.defaulted
    repeat' apply Layout.ap_fits
    all_goals first
      | exact trivial
      | (apply Layout.field_absent
         · exact absent _ (by decide)
         · rfl)
  have fits : (Variant.declaration.reader true dslStep).Fits (.object [("!" ++ tag,j)]) :=
    ⟨_,rfl,declared⟩
  by_contra refused
  have none := read_eq_none.mpr refused
  rw [dslStep_read,List.findSome?_eq_none_iff] at none
  exact read_eq_none.mp (none .declaration (by decide)) fits

/-- A value with an object as its JSON form is a mapping or has a tag. -/
theorem object_cases {floats : FloatText} {y : Yaml} (given : y.toJson floats = some (.object sub)) :
    (∃ m, y = .mapping m) ∨ ∃ tag j, sub = [("!" ++ tag,j)] := by
  cases y with
  | mapping m => exact .inl ⟨m,rfl⟩
  | tagged tag value =>
    simp only [Yaml.toJson,Option.map_eq_some_iff,Json.object.injEq] at given
    obtain ⟨j,_,rfl⟩ := given
    exact .inr ⟨tag,j,rfl⟩
  | sequence items =>
    simp only [Yaml.toJson,Option.map_eq_some_iff] at given
    obtain ⟨_,_,impossible⟩ := given
    cases impossible
  | _ => cases given

section Document

variable {serde : Serde}

/-- A `return:` in a nested step makes it a `return` step for both parsers. -/
theorem returns_of_same (json : (Yaml.mapping m).toJson serde.toFloatText = some (.object members))
    (same : ∀ sub, .mapping sub ∈ (Yaml.mapping m).blockItems → SameGrammar serde sub)
    (item : .object sub ∈ Json.blockItems members) (read : dslStep.read (.object sub) = some nested)
    (key : (sub.lookup "return").isSome) : nested.variant = .returnStep := by
  obtain ⟨y,inside,converted⟩ := Yaml.blockItems_of_toJson json item
  rcases object_cases converted with ⟨m',rfl⟩ | ⟨tag,j,rfl⟩
  · obtain ⟨json',nested',_,converted',read',_,_,checked⟩ := same m' inside ""
    cases converted.symm.trans converted'
    cases read.symm.trans read'
    rw [Yaml.lookup_mapping (by decide) converted] at key
    have present : keyPresent m' "return" = true := by
      unfold keyPresent
      cases held : Yaml.get? m' "return" with
      | none => simp [held] at key
      | some value => rfl
    have entry : ("return",Variant.returnStep) ∈ keyVariants := by decide
    have hint := (variantHint_iff "").mpr ⟨checked.oneAction,Discriminates.key entry present⟩
    exact Except.ok.inj (checked.discriminator.symm.trans hint)
  · have differs : ("return" == "!" ++ tag) = false := by
      apply beq_false_of_ne
      intro same
      have := congrArg String.toList same
      simp at this
    simp [List.lookup_cons,differs] at key

/-- The steps of a regular document are read from the inside out. -/
theorem same_of_all_regular (n : Nat) : ∀ m members,
    (Yaml.mapping m).toJson serde.toFloatText = some (.object members) →
    (Json.object members).depth < n → Regular serde.toFloatText m →
    (∀ sub, Yaml.Nested (.mapping m) (.mapping sub) → Regular serde.toFloatText sub) →
    SameGrammar serde m := by
  induction n with
  | zero =>
    intro m members _ below
    exact absurd below (Nat.not_lt_zero _)
  | succ n ih =>
    intro m members json below regular all
    apply same_of_regular regular
    rintro members' json' item member ⟨sub,rfl⟩
    cases json.symm.trans json'
    obtain ⟨y,inside,converted⟩ := Yaml.blockItems_of_toJson json member
    rcases object_cases converted with ⟨m',rfl⟩ | ⟨tag,j,rfl⟩
    · have shallower := depth_of_blockItem member
      have inner := ih m' sub converted (by omega) (all m' (.here inside))
        fun sub' nested => all sub' (.deeper inside nested)
      obtain ⟨_,nested,_,converted',read,_⟩ := inner ""
      cases converted.symm.trans converted'
      exact fits_of_read read
    · exact dslStep_fits_tagged tag j

end Document

namespace DslParser

/-- What remains to do once the document is loaded. -/
theorem parseContent_loaded {parser : DslParser}
    (loaded : parser.serde.yaml (parser.replaceConstants content) = .ok yaml) :
    parser.parseContent content = (do
      let steps ← parseSteps parser.serde yaml
      validateDsl { steps }
      pure { steps }) := by
  unfold parseContent
  rw [loaded]

/-- The steps of an accepted DSL have a JSON form. -/
theorem toJson_of_accepted {parser : DslParser} (accepted : parser.parseContent content = .ok dsl)
    (loaded : parser.serde.yaml (parser.replaceConstants content) = .ok yaml)
    (member : entry ∈ yaml.entries) : ∃ j, entry.2.toJson parser.serde.toFloatText = some j := by
  rw [parseContent_loaded loaded] at accepted
  cases parsed : parseSteps parser.serde yaml with
  | error e => simp [parsed,bind,Except.bind] at accepted
  | ok steps =>
    obtain ⟨step,read,_⟩ := Assoc.lookup_traverse parsed (AList.mem_lookup_iff.mpr member)
    cases value : entry.2 with
    | mapping m =>
      rw [value] at read
      obtain ⟨_,json,_,converted,_⟩ := parseStep_iff.mp read
      exact ⟨json,converted⟩
    | _ => simp [value,parseStep] at read

theorem NestedIn.all {parser : DslParser} (nested : parser.NestedIn content m)
    (inside : Yaml.Nested (.mapping m) (.mapping sub)) : parser.NestedIn content sub := by
  have join : ∀ {step item}, Yaml.Nested step item → Yaml.Nested item (.mapping sub) →
      Yaml.Nested step (.mapping sub) := by
    intro step item nested
    induction nested with
    | here member => exact fun inside => .deeper member inside
    | deeper member _ ih => exact fun inside => .deeper member (ih inside)
  obtain ⟨yaml,loaded,entry,member,held⟩ := nested
  exact ⟨yaml,loaded,entry,member,join held inside⟩

/-- The nested steps of an accepted DSL obey the grammar of top-level steps exactly when each
of them is regular. -/
theorem nested_sameGrammar_iff_regular (parser : DslParser)
    (accepted : parser.parseContent content = .ok dsl) :
    (∀ m, parser.NestedIn content m → SameGrammar parser.serde m) ↔
      ∀ m, parser.NestedIn content m → Regular parser.serde.toFloatText m := by
  constructor
  · intro same m nested
    apply regular_of_same (same m nested)
    intro members json sub inner item read key
    have inside : ∀ sub, .mapping sub ∈ (Yaml.mapping m).blockItems → SameGrammar parser.serde sub :=
      fun sub member => same sub (nested.all (.here member))
    exact returns_of_same json inside item read key
  · intro regular m nested
    have ⟨yaml,loaded,entry,member,held⟩ := nested
    obtain ⟨json,converted⟩ := toJson_of_accepted accepted loaded member
    obtain ⟨j,converted⟩ := Yaml.toJson_of_nested held converted
    obtain ⟨entries,_,rfl⟩ := Yaml.toJson_mapping converted
    have inner : ∀ sub, Yaml.Nested (.mapping m) (.mapping sub) → Regular parser.serde.toFloatText sub :=
      fun sub inside => regular sub (nested.all inside)
    exact same_of_all_regular _ m _ converted (Nat.lt_succ_self _) (regular m nested) inner

/-- A document with one `iterate:` step around one nested step. -/
def eachDocument (sub : List (Yaml × Yaml)) : StringMap Yaml :=
  AList.singleton "each" (.mapping [(.string "iterate",.mapping
    [(.string "over",.string "$\x7bincoming.body.items\x7d"),(.string "as",.string "item"),
     (.string "do",.sequence [.mapping sub])])])

/-- The text of that document, by the key and value of the nested step. -/
def eachContent (nested : String) : String :=
  "each:\n  iterate:\n    over: $\x7bincoming.body.items\x7d\n    as: item\n    do:\n      - " ++ nested

theorem reference_plain (plain : '#' ∉ text) : Interpolate.reference text = none := by
  unfold Interpolate.reference
  split
  · exact absurd (List.mem_cons_of_mem _ List.mem_cons_self) plain
  · exact absurd List.mem_cons_self plain
  · rfl

theorem substituteFrom_plain (plain : '#' ∉ text) (bound : text.length ≤ n) :
    Interpolate.substituteFrom lookup n text = text := by
  induction n generalizing text with
  | zero =>
    obtain rfl := List.length_eq_zero_iff.mp (Nat.le_zero.mp bound)
    rfl
  | succ n ih =>
    cases text with
    | nil => rfl
    | cons c rest =>
      have later : rest.length ≤ n := Nat.le_of_succ_le_succ bound
      simp only [Interpolate.substituteFrom,reference_plain plain]
      rw [ih (fun member => plain (List.mem_cons_of_mem c member)) later]

/-- A text without `#` refers to no constant. -/
theorem replaceConstants_plain (parser : DslParser) (plain : '#' ∉ content.toList) :
    parser.replaceConstants content = content := by
  have whole : content.toList.length ≤ content.length := Nat.le_of_eq String.length_toList
  unfold replaceConstants Interpolate.substitute
  rw [substituteFrom_plain plain whole,String.ofList_toList]

/-- A parser whose YAML library knows one document. -/
def oneDocument (content : String) (document : StringMap Yaml) : DslParser where
  serde :=
    { text := fun _ => "0.0"
      numeric := fun _ => ⟨'0',['.','0'],rfl,.inl rfl⟩
      yaml := fun text => if text = content then .ok document else .error "unexpected document"
      debug := fun _ => "Mapping"
      keyError := fun _ => "key must be a string"
      readError := fun _ => "invalid type" }

theorem exists_ok {result : Except RuuterError Dsl} (given : result.toOption.isSome = true) :
    ∃ dsl, result = .ok dsl := by
  cases result with
  | ok dsl => exact ⟨dsl,rfl⟩
  | error e => cases given

section OneDocument

variable {content : String} {sub : List (Yaml × Yaml)} {document : StringMap Yaml}

theorem oneDocument_loaded (text : (oneDocument content document).replaceConstants content = content) :
    (oneDocument content document).serde.yaml
      ((oneDocument content document).replaceConstants content) = .ok document :=
  if_pos text

theorem oneDocument_accepts (text : (oneDocument content document).replaceConstants content = content)
    (given : (do
      let steps ← parseSteps (oneDocument content document).serde document
      validateDsl { steps }
      pure { steps } : Except RuuterError Dsl).toOption.isSome = true) :
    ∃ dsl, (oneDocument content document).parseContent content = .ok dsl := by
  rw [parseContent_loaded (oneDocument_loaded text)]
  exact exists_ok given

theorem oneDocument_nested
    (text : (oneDocument content (eachDocument sub)).replaceConstants content = content) :
    (oneDocument content (eachDocument sub)).NestedIn content sub :=
  ⟨_,oneDocument_loaded text,_,List.mem_singleton_self _,.here (List.mem_singleton_self _)⟩

end OneDocument

def logStepMapping : List (Yaml × Yaml) := [(.string "log",.string "done")]

theorem each_log_sameGrammar_iff :
    let content := eachContent "log: done"
    let parser := oneDocument content (eachDocument logStepMapping)
    (∃ dsl, parser.parseContent content = .ok dsl) ∧
      parser.NestedIn content logStepMapping ∧
      ((∀ m, parser.NestedIn content m → SameGrammar parser.serde m) ↔
        ∀ m, parser.NestedIn content m → Regular parser.serde.toFloatText m) := by
  intro content parser
  have text := parser.replaceConstants_plain (show '#' ∉ content.toList by decide +kernel)
  have accepted : ∃ dsl, parser.parseContent content = .ok dsl :=
    oneDocument_accepts text (by decide +kernel)
  obtain ⟨dsl,ok⟩ := accepted
  exact ⟨⟨dsl,ok⟩,oneDocument_nested text,nested_sameGrammar_iff_regular parser ok⟩

def misspeltMapping : List (Yaml × Yaml) := [(.string "asign",.mapping [(.string "total",.number (.posInt 1))])]

/-- A misspelt action is refused at the top level and is a silent declaration in a `do:` block. -/
theorem misspelt_action_not_sameGrammar :
    let content := eachContent "asign: \x7b total: 1 \x7d"
    let parser := oneDocument content (eachDocument misspeltMapping)
    (∃ dsl, parser.parseContent content = .ok dsl) ∧
      parser.NestedIn content misspeltMapping ∧
      ((Yaml.mapping misspeltMapping).toJson parser.serde.toFloatText).bind
        (fun json => (dslStep.read json).map (·.variant)) = some .declaration ∧
      ¬ SameGrammar parser.serde misspeltMapping := by
  intro content parser
  have text := parser.replaceConstants_plain (show '#' ∉ content.toList by decide +kernel)
  have accepted : ∃ dsl, parser.parseContent content = .ok dsl :=
    oneDocument_accepts text (by decide +kernel)
  refine ⟨accepted,oneDocument_nested text,by decide +kernel,?_⟩
  intro same
  obtain ⟨_,_,step,_,_,parsed,_⟩ := same "nested"
  have refused : (parseStep parser.serde "nested" (.mapping misspeltMapping)).toOption.isSome = false := by
    decide +kernel
  rw [parsed] at refused
  cases refused

end DslParser
end Ruuter
