import Ruuter.Frame
import Ruuter.LiteralFastPath
import Ruuter.StepJson
import Ruuter.Lib.Assoc
import Ruuter.Lib.Reader
import Mathlib.Data.List.Sort

/-! The registry of script sources (`src/scripting/registry.rs`): a walk over the serialised DSLs that
gives each source an id at its first occurrence, and the frozen tables that are looked up later. -/
namespace Ruuter

mutual

/-- A value as a `serde_json::Map` holds it: members in the order of their keys. -/
def Json.ordered : Json → Json
  | .array items => .array (orderedList items)
  | .object members => .object ((orderedMembers members).insertionSort fun a b => a.1 ≤ b.1)
  | other => other

def Json.orderedList : List Json → List Json
  | [] => []
  | item :: rest => item.ordered :: orderedList rest

def Json.orderedMembers : List (String × Json) → List (String × Json)
  | [] => []
  | (key,value) :: rest => (key,value.ordered) :: orderedMembers rest

end

/-- `serde_json::to_value` of a DSL. -/
def Dsl.toValue (dsl : Dsl) : Json :=
  (Json.object [("steps",.object (dsl.steps.entries.map fun entry => (entry.1,entry.2.toJson)))]).ordered

section Strings
variable {value : Json} {text : String}

/-- The value stands in another one. -/
def Json.Within (value whole : Json) : Prop := ∀ text ∈ value.strings, text ∈ whole.strings

theorem mem_stringsMembers {members : List (String × Json)} :
    text ∈ Json.stringsMembers members ↔ ∃ member ∈ members, text ∈ member.2.strings := by
  induction members with
  | nil => simp [Json.stringsMembers]
  | cons member rest ih => simp [Json.stringsMembers,ih]

theorem mem_stringsList {items : List Json} : text ∈ Json.stringsList items ↔ ∃ item ∈ items, text ∈ item.strings := by
  induction items with
  | nil => simp [Json.stringsList]
  | cons item rest ih => simp [Json.stringsList,ih]

mutual

theorem mem_strings_ordered : (value : Json) → (text ∈ value.ordered.strings ↔ text ∈ value.strings)
  | .array items => mem_strings_orderedList items
  | .object members => by
    have inner := mem_strings_orderedMembers members
    rw [mem_stringsMembers] at inner
    rw [Json.ordered,Json.strings,Json.strings,mem_stringsMembers,← inner]
    simp only [List.mem_insertionSort]
  | .null | .bool _ | .number _ | .string _ => Iff.rfl

theorem mem_strings_orderedList : (items : List Json) →
    (text ∈ Json.stringsList (Json.orderedList items) ↔ text ∈ Json.stringsList items)
  | [] => Iff.rfl
  | item :: rest => by
    rw [Json.orderedList,Json.stringsList,Json.stringsList,List.mem_append,List.mem_append,mem_strings_ordered item,
      mem_strings_orderedList rest]

theorem mem_strings_orderedMembers : (members : List (String × Json)) →
    (text ∈ Json.stringsMembers (Json.orderedMembers members) ↔ text ∈ Json.stringsMembers members)
  | [] => Iff.rfl
  | (_,value) :: rest => by
    rw [Json.orderedMembers,Json.stringsMembers,Json.stringsMembers,List.mem_append,List.mem_append,
      mem_strings_ordered value,mem_strings_orderedMembers rest]

end

theorem Json.Within.trans (inner : value.Within middle) (outer : middle.Within whole) : value.Within whole :=
  fun text held => outer text (inner text held)

theorem within_object {members : List (String × Json)} (member : (key,value) ∈ members) :
    value.Within (.object members) :=
  fun _ held => mem_stringsMembers.mpr ⟨(key,value),member,held⟩

theorem within_array {items : List Json} (member : value ∈ items) : value.Within (.array items) :=
  fun _ held => mem_stringsList.mpr ⟨value,member,held⟩

/-- A value in a member of an object. -/
theorem within_member (key : String) {members : List (String × Json)} (member : (key,middle) ∈ members)
    (inner : value.Within middle) : value.Within (.object members) :=
  inner.trans (within_object member)

theorem Json.Within.refl (value : Json) : value.Within value := fun _ held => held

theorem within_action (key : String) {action : List (String × Json)} (member : (key,middle) ∈ action)
    (inner : value.Within middle) (next : Option String) (base : BaseStepFields) :
    value.Within (stepObject action next base) :=
  within_member key (List.mem_append_left _ member) inner

theorem within_argValues {held : Option Json} (member : value ∈ argValues held) :
    ∃ arg, held = some arg ∧ value.Within arg := by
  unfold argValues at member
  split at member
  · obtain ⟨⟨key,inner⟩,inside,rfl⟩ := List.mem_map.mp member
    exact ⟨_,rfl,within_object inside⟩
  · obtain rfl := List.mem_singleton.mp member
    exact ⟨_,rfl,.refl _⟩
  · cases member

theorem within_httpArgs {args : HttpArgs} (member : value ∈ args.values) : value.Within args.toJson := by
  unfold HttpArgs.values at member
  simp only [List.cons_append,List.mem_cons,List.mem_append,Option.mem_toList] at member
  obtain rfl | (body | query) | headers := member
  · exact within_member "url" (List.mem_cons_self ..) (.refl _)
  · exact within_member "body" (by simp [optionalMember,body]) (.refl value)
  · obtain ⟨arg,given,inner⟩ := within_argValues query
    exact within_member "query" (by simp [optionalMember,given]) inner
  · obtain ⟨arg,given,inner⟩ := within_argValues headers
    exact within_member "headers" (by simp [optionalMember,given]) inner

theorem within_stateOp {op : StateOp} (member : value ∈ op.values) : value.Within op.toJson := by
  cases op with
  | get key into =>
    obtain rfl := List.mem_singleton.mp member
    exact within_member "get" (List.mem_singleton_self _) (within_member "key" (by simp) (.refl _))
  | delete key =>
    obtain rfl := List.mem_singleton.mp member
    exact within_member "delete" (List.mem_singleton_self _) (within_member "key" (by simp) (.refl _))
  | set key held =>
    simp only [StateOp.values,List.mem_cons,List.not_mem_nil,or_false] at member
    obtain rfl | rfl := member
    · exact within_member "set" (List.mem_singleton_self _) (within_member "key" (by simp) (.refl _))
    · exact within_member "set" (List.mem_singleton_self _) (within_member "value" (by simp) (.refl _))

theorem within_broadcast {b : BroadcastWhere} (member : value ∈ b.values) : value.Within b.toJson := by
  simp only [BroadcastWhere.values,List.cons_append,List.mem_cons,List.mem_append,Option.mem_toList] at member
  obtain rfl | equals | contains := member
  · exact within_member "tag" (List.mem_cons_self ..) (.refl _)
  · exact within_member "equals" (by simp [optionalMember,equals]) (.refl value)
  · exact within_member "contains" (by simp [optionalMember,contains]) (.refl value)

theorem within_map {map : StringMap Json} (member : value ∈ map.entries.map (·.2)) : value.Within (jsonOfMap map) := by
  obtain ⟨entry,inside,rfl⟩ := List.mem_map.mp member
  exact within_member entry.1 (List.mem_map.mpr ⟨entry,inside,rfl⟩) (.refl _)

/-- A member that is inserted first is not replaced by one of another key. -/
theorem lookup_inserted {entries : List (Sigma fun _ : String => Json)} (nodup : entries.NodupKeys)
    (member : (⟨key,value⟩ : Sigma fun _ => Json) ∈ entries) :
    (entries.foldr (fun entry members => Json.insertMember entry.1 entry.2 members) []).lookup key = some value := by
  induction entries with
  | nil => cases member
  | cons entry rest ih =>
    obtain ⟨apart,nodup⟩ := List.nodupKeys_cons.mp nodup
    rw [List.foldr_cons,Json.lookup_insertMember]
    rcases List.mem_cons.mp member with rfl | later
    · simp
    · have other : key ≠ entry.1 := by
        rintro rfl
        exact apart (List.mem_map.mpr ⟨_,later,rfl⟩)
      rw [ih nodup later]
      simp [other]

theorem within_tags {args : WsTagArgs} (member : value ∈ args.set.entries.map (·.2)) : value.Within args.toJson := by
  obtain ⟨⟨key,held⟩,inside,rfl⟩ := List.mem_map.mp member
  have there := mem_of_lookup (lookup_inserted args.set.nodupKeys inside)
  exact within_member "set" (List.mem_singleton_self _) (within_object there)

mutual

/-- What a step evaluates is serialised with it. -/
theorem within_step : (step : DslStep) → value ∈ step.values → value.Within step.toJson
  | .assign s, member => within_action "assign" (List.mem_singleton_self _) (within_map member) s.next s.base
  | .returnStep s, member => by
    simp only [DslStep.values,List.cons_append,List.mem_cons,List.mem_append,Option.mem_toList] at member
    obtain rfl | status | headers := member
    · exact within_action "return" (List.mem_cons_self ..) (.refl _) s.next s.base
    · exact within_action "status" (by simp [optionalMember,status]) (.refl value) s.next s.base
    · obtain ⟨arg,given,inner⟩ := within_argValues headers
      exact within_action "headers" (by simp [optionalMember,given]) inner s.next s.base
  | .http s, member => within_member "args" (by simp) (within_httpArgs member)
  | .httpMock s, member => by
    simp only [DslStep.values,List.mem_cons,Option.mem_toList] at member
    obtain rfl | request := member
    · have inner : s.args.response.Within s.args.toJson := within_member "response" (by simp) (.refl _)
      exact within_action "args" (by simp) inner s.next s.base
    · have inner : value.Within s.args.toJson :=
        within_member "request" (by simp [optionalMember,request]) (.refl value)
      exact within_action "args" (by simp) inner s.next s.base
  | .switch s, member => by
    obtain ⟨condition,inside,rfl⟩ := List.mem_map.mp member
    have held : (Json.string condition.condition).Within condition.toJson :=
      within_member "condition" (List.mem_cons_self ..) (.refl _)
    exact within_action "switch" (List.mem_singleton_self _)
      (held.trans (within_array (List.mem_map_of_mem inside))) s.next s.base
  | .log s, member => by
    obtain rfl := List.mem_singleton.mp member
    exact within_action "log" (List.mem_singleton_self _) (.refl _) s.next s.base
  | .template s, member => by
    simp only [DslStep.values,List.mem_append] at member
    obtain (body | query) | headers := member
    · obtain ⟨arg,given,inner⟩ := within_argValues body
      exact within_action "body" (by simp [optionalMember,given]) inner s.next s.base
    · obtain ⟨arg,given,inner⟩ := within_argValues query
      exact within_action "query" (by simp [optionalMember,given]) inner s.next s.base
    · obtain ⟨arg,given,inner⟩ := within_argValues headers
      exact within_action "headers" (by simp [optionalMember,given]) inner s.next s.base
  | .state s, member => within_action "state" (List.mem_singleton_self _) (within_stateOp member) s.next s.base
  | .iterate ⟨⟨list,_,body,collect,_,_⟩,next,base⟩, member => by
    simp only [DslStep.values,List.cons_append,List.mem_cons,List.mem_append,Option.mem_toList] at member
    refine within_action "iterate" (List.mem_singleton_self _) ?_ next base
    obtain rfl | collected | inside := member
    · exact within_member "over" (by simp) (.refl _)
    · exact within_member "collect" (by simp [optionalMember,collected]) (.refl value)
    · have inner : value.Within (.array (bodyJson body)) := within_body body inside
      exact within_member "do" (by simp) inner
  | .parallelHttp s, member => by
    simp only [DslStep.values,List.cons_append,List.mem_cons,List.mem_append,Option.mem_toList,Option.map_eq_some_iff,
      Option.bind_eq_some_iff] at member
    refine within_action "parallel_http" (List.mem_singleton_self _) ?_ s.next s.base
    obtain rfl | args | ⟨predicate,⟨exit,given,held⟩,rfl⟩ := member
    · exact within_member "peers" (by simp) (.refl _)
    · exact within_member "args" (by simp) (within_httpArgs args)
    · have inner : (Json.string predicate).Within exit.toJson :=
        within_member "body_predicate" (by simp [optionalMember,held]) (.refl _)
      exact within_member "early_exit_on" (by simp [optionalMember,given]) inner
  | .detach ⟨⟨body,_⟩,next,base⟩, member =>
    within_action "detach" (List.mem_singleton_self _) (within_member "do" (List.mem_cons_self ..) (within_body body member))
      next base
  | .wsSend s, member => by
    simp only [DslStep.values,List.cons_append,List.mem_cons,List.mem_append,Option.mem_toList] at member
    refine within_action "ws_send" (List.mem_singleton_self _) ?_ s.next s.base
    obtain rfl | wheres | target := member
    · exact within_member "payload" (by simp) (.refl _)
    · cases given : s.wsSend.broadcastWhere with
      | none => simp [given] at wheres
      | some b =>
        simp only [given,Option.map_some,Option.getD_some] at wheres
        exact within_member "broadcast_where" (by simp [optionalMember,given]) (within_broadcast wheres)
    · exact within_member "to" (by simp [optionalMember,target]) (.refl value)
  | .wsTag s, member => within_action "ws_tag" (List.mem_singleton_self _) (within_tags member) s.next s.base
  | .singleFlight ⟨⟨key,_,body,_⟩,next,base⟩, member => by
    simp only [DslStep.values,List.mem_cons] at member
    refine within_action "single_flight" (List.mem_singleton_self _) ?_ next base
    obtain rfl | inside := member
    · exact within_member "key" (by simp) (.refl _)
    · have inner : value.Within (.array (bodyJson body)) := within_body body inside
      exact within_member "do" (by simp) inner
  | .declaration s, member => by cases member

theorem within_body : (body : List DslStep) → value ∈ bodyValues body → value.Within (.array (bodyJson body))
  | [], member => by cases member
  | step :: rest, member => by
    rcases List.mem_append.mp member with here | later
    · exact (within_step step here).trans (within_array (List.mem_cons_self ..))
    · intro text held
      obtain ⟨item,inside,there⟩ := mem_stringsList.mp (within_body rest later text held)
      exact mem_stringsList.mpr ⟨item,List.mem_cons_of_mem _ inside,there⟩

end

end Strings

namespace Registry

/-- `registry::Builder`. -/
structure Builder where
  sources : List String := []
  seen : StringMap Nat := ∅

def register (expr : String) (b : Builder) : Builder :=
  if (b.seen.lookup expr).isSome then b
  else { sources := b.sources ++ [expr], seen := b.seen.insert expr b.sources.length }

def scanString (s : String) (b : Builder) : Builder :=
  let b := (findScriptSegments s).foldl (fun b segment => register segment.inner b) b
  if Text.startsWith s "$=" then
    match lineCaptures s with
    | some m => if m.whole = s.toList then register m.body b else b
    | none => b
  else b

mutual

def walkJson : Json → Builder → Builder
  | .string s, b => scanString s b
  | .object members, b => walkMembers members b
  | .array items, b => walkItems items b
  | .null, b | .bool _, b | .number _, b => b

def walkItems : List Json → Builder → Builder
  | [], b => b
  | item :: rest, b => walkItems rest (walkJson item b)

def walkMembers : List (String × Json) → Builder → Builder
  | [], b => b
  | (_,value) :: rest, b => walkMembers rest (walkJson value b)

end

def addDsl (b : Builder) (dsl : Dsl) : Builder := walkJson dsl.toValue b

end Registry

/-- `ExpressionRegistry`. -/
structure ExpressionRegistry where
  bySource : StringMap Nat := ∅
  ordered : List (Nat × String) := []

namespace ExpressionRegistry

def len (registry : ExpressionRegistry) : Nat := registry.ordered.length

def idFor (registry : ExpressionRegistry) (source : String) : Option Nat := registry.bySource.lookup source

/-- The ids count the sources, and both tables say the same. -/
structure Consistent (registry : ExpressionRegistry) : Prop where
  ids : registry.ordered.map (·.1) = List.range registry.len
  injective : ∀ source other id, registry.idFor source = some id → registry.idFor other = some id → source = other
  listed : ∀ id source, (id,source) ∈ registry.ordered ↔ registry.idFor source = some id

theorem Consistent.lt {registry : ExpressionRegistry} {source : String} {id : Nat} (consistent : registry.Consistent)
    (found : registry.idFor source = some id) : id < registry.len := by
  have member : id ∈ registry.ordered.map (·.1) := List.mem_map.mpr ⟨_,(consistent.listed id source).mpr found,rfl⟩
  rw [consistent.ids] at member
  exact List.mem_range.mp member

end ExpressionRegistry

namespace Registry

def freeze (b : Builder) : ExpressionRegistry :=
  let ordered := b.sources.zipIdx.map fun entry => (entry.2,entry.1)
  { ordered, bySource := ordered.foldl (fun map entry => map.insert entry.2 entry.1) ∅ }

/-- The registry of the DSLs that are added, in their order. -/
def build (dsls : List Dsl) : ExpressionRegistry := freeze (dsls.foldl addDsl {})

/-- The sources stand once each, and `seen` knows them. -/
structure Builder.Proper (b : Builder) : Prop where
  nodup : b.sources.Nodup
  seen : ∀ source, (b.seen.lookup source).isSome = true ↔ source ∈ b.sources

section Builder
variable {b : Builder} {expr source s : String}

theorem proper_empty : Builder.Proper {} where
  nodup := .nil
  seen source := by simp

theorem Builder.Proper.register (proper : b.Proper) (expr : String) : (register expr b).Proper := by
  unfold Registry.register
  split
  · exact proper
  · rename_i fresh
    have absent : expr ∉ b.sources := fun member => fresh ((proper.seen expr).mpr member)
    constructor
    · exact List.nodup_append.mpr ⟨proper.nodup,List.nodup_singleton expr,by
        intro a inside c single
        obtain rfl := List.mem_singleton.mp single
        rintro rfl
        exact absent inside⟩
    · intro source
      by_cases same : source = expr
      · subst same
        simp
      · rw [AList.lookup_insert_ne same,proper.seen source]
        simp [same]

theorem mem_register (proper : b.Proper) : source ∈ (register expr b).sources ↔ source ∈ b.sources ∨ source = expr := by
  unfold register
  split
  · rename_i known
    have inside := (proper.seen expr).mp known
    constructor
    · exact .inl
    · rintro (member | rfl)
      · exact member
      · exact inside
  · simp

/-- What a piece of the walk does: the builder stays proper, and the sources are there. -/
def Adds (walk : Builder → Builder) (found : List String) : Prop :=
  ∀ b, b.Proper → (walk b).Proper ∧ ∀ source, source ∈ (walk b).sources ↔ source ∈ b.sources ∨ source ∈ found

theorem adds_nil : Adds id [] := fun _ proper => ⟨proper,by simp⟩

theorem adds_register (expr : String) : Adds (register expr) [expr] :=
  fun _ proper => ⟨proper.register expr,fun _ => by rw [mem_register proper,List.mem_singleton]⟩

theorem Adds.comp {first later : Builder → Builder} (one : Adds first found) (other : Adds later rest) :
    Adds (fun b => later (first b)) (found ++ rest) := by
  intro b proper
  obtain ⟨between,sources⟩ := one b proper
  obtain ⟨after,more⟩ := other (first b) between
  refine ⟨after,fun source => ?_⟩
  rw [more,sources,List.mem_append,or_assoc]

theorem adds_foldl {step : Builder → α → Builder} {found : α → List String} (each : ∀ a, Adds (step · a) (found a))
    (items : List α) : Adds (fun b => items.foldl step b) (items.flatMap found) := by
  induction items with
  | nil => exact adds_nil
  | cons item rest ih =>
    rw [List.flatMap_cons]
    exact (each item).comp ih

/-- A line starts with `$=`. -/
theorem lineBody_starts (other : ¬ Text.startsWith s "$=" = true) : lineBody s = none := by
  unfold lineBody
  split
  · rename_i rest chars
    refine absurd ?_ other
    unfold Text.startsWith
    rw [chars]
    exact List.isPrefixOf_iff_prefix.mpr (List.prefix_append ['$','='] rest)
  · rfl

/-- The walk finds in a string what can be evaluated of it. -/
theorem adds_scanString (s : String) : Adds (scanString s) (scriptSources s) := by
  have segments : Adds (fun b => (findScriptSegments s).foldl (fun b segment => register segment.inner b) b)
      ((findScriptSegments s).map (·.inner)) := by
    have all := adds_foldl (fun segment : Segment => adds_register segment.inner) (findScriptSegments s)
    rwa [← List.map_eq_flatMap] at all
  have line : Adds (fun b => if Text.startsWith s "$=" then
      match lineCaptures s with
      | some m => if m.whole = s.toList then register m.body b else b
      | none => b
      else b) (lineBody s).toList := by
    rw [lineBody_captures]
    by_cases starts : Text.startsWith s "$=" = true
    · simp only [starts,if_true]
      cases lineCaptures s with
      | none => exact adds_nil
      | some m =>
        by_cases whole : m.whole = s.toList
        · simp only [whole,if_true,Option.filter_some,decide_true,Option.map_some,Option.toList_some]
          exact adds_register m.body
        · simp only [whole,if_false,Option.filter_some,decide_false,Bool.false_eq_true,Option.map_none,
            Option.toList_none]
          exact adds_nil
    · have none := lineBody_starts starts
      rw [lineBody_captures] at none
      simp only [starts,none]
      exact adds_nil
  exact segments.comp line

mutual

theorem adds_walkJson : (value : Json) → Adds (walkJson value) (value.strings.flatMap scriptSources)
  | .string s => by
    rw [Json.strings,List.flatMap_singleton]
    exact adds_scanString s
  | .array items => adds_walkItems items
  | .object members => adds_walkMembers members
  | .null | .bool _ | .number _ => adds_nil

theorem adds_walkItems : (items : List Json) →
    Adds (walkItems items) ((Json.stringsList items).flatMap scriptSources)
  | [] => adds_nil
  | item :: rest => by
    rw [Json.stringsList,List.flatMap_append]
    exact (adds_walkJson item).comp (adds_walkItems rest)

theorem adds_walkMembers : (members : List (String × Json)) →
    Adds (walkMembers members) ((Json.stringsMembers members).flatMap scriptSources)
  | [] => adds_nil
  | (_,value) :: rest => by
    rw [Json.stringsMembers,List.flatMap_append]
    exact (adds_walkJson value).comp (adds_walkMembers rest)

end

/-- The sources a DSL is registered with. -/
def dslSources (dsl : Dsl) : List String := dsl.toValue.strings.flatMap scriptSources

theorem adds_dsls (dsls : List Dsl) : Adds (fun b => dsls.foldl addDsl b) (dsls.flatMap dslSources) := by
  have each : ∀ dsl, Adds (addDsl · dsl) (dslSources dsl) := fun dsl => adds_walkJson dsl.toValue
  exact adds_foldl each dsls

end Builder

section Freeze
variable {b : Builder} {source : String} {id : Nat}

theorem mem_ordered : (id,source) ∈ (freeze b).ordered ↔ b.sources[id]? = some source := by
  have listed := @List.mem_zipIdx_iff_getElem? String (source,id) b.sources
  rw [← listed]
  simp [freeze]

theorem ordered_ids (b : Builder) : (freeze b).ordered.map (·.1) = List.range b.sources.length := by
  rw [List.range_eq_range',← List.zipIdx_map_snd 0 b.sources]
  exact List.map_map

theorem len_freeze (b : Builder) : (freeze b).len = b.sources.length := by
  simp [ExpressionRegistry.len,freeze]

/-- The table of ids is the list of sources read backwards. -/
theorem idFor_freeze (proper : b.Proper) : (freeze b).idFor source = some id ↔ b.sources[id]? = some source := by
  have listed : ∀ i, b.sources[i]? = some source → (freeze b).idFor source = some i := by
    intro i at'
    refine Assoc.lookup_foldl_insert_of_forall Prod.snd Prod.fst (mem_ordered.mpr at') rfl ?_
    rintro ⟨j,other⟩ member same
    obtain rfl : other = source := same
    have there := mem_ordered.mp member
    obtain ⟨left,_⟩ := List.getElem?_eq_some_iff.mp at'
    exact ((List.getElem?_inj left proper.nodup).mp (at'.trans there.symm)).symm
  constructor
  · intro found
    by_cases inside : source ∈ b.sources
    · obtain ⟨i,at'⟩ := List.mem_iff_getElem?.mp inside
      obtain rfl : i = id := Option.some.inj ((listed i at').symm.trans found)
      exact at'
    · have absent : ∀ entry ∈ (freeze b).ordered, entry.2 ≠ source := by
        rintro ⟨i,other⟩ member rfl
        exact inside (List.mem_of_getElem? (mem_ordered.mp member))
      have none : (freeze b).idFor source = none := Assoc.lookup_foldl_insert_of_not_mem Prod.snd Prod.fst absent
      rw [none] at found
      cases found
  · exact listed id

end Freeze

section Complete
variable {dsl : Dsl} {dsls : List Dsl} {text source : String}

/-- The scripts that `evaluate_string` runs of a string. -/
def extracted (text : String) : List String :=
  match wholeExpression text with
  | some inner => [inner]
  | none => (findScriptSegments text).map (·.inner)

theorem mem_scriptSources (member : source ∈ extracted text) : source ∈ scriptSources text := by
  unfold extracted at member
  split at member
  · rename_i inner whole
    obtain rfl := List.mem_singleton.mp member
    exact wholeExpression_mem whole
  · exact List.mem_append_left _ member

theorem built (dsls : List Dsl) : (dsls.foldl addDsl {}).Proper ∧
    ∀ source, source ∈ (dsls.foldl addDsl {}).sources ↔ ∃ dsl ∈ dsls, source ∈ dslSources dsl := by
  obtain ⟨proper,sources⟩ := adds_dsls dsls {} proper_empty
  refine ⟨proper,fun source => ?_⟩
  rw [sources,List.mem_flatMap]
  simp

/-- What the steps evaluate is serialised with the DSL. -/
theorem mem_strings_toValue (used : text ∈ dsl.texts) : text ∈ dsl.toValue.strings := by
  obtain ⟨value,member,inside⟩ := List.mem_flatMap.mp used
  obtain ⟨entry,held,evaluated⟩ := List.mem_flatMap.mp member
  have step : value.Within entry.2.toJson := within_step entry.2 evaluated
  have steps : value.Within (.object (dsl.steps.entries.map fun entry => (entry.1,entry.2.toJson))) :=
    within_member entry.1 (List.mem_map.mpr ⟨entry,held,rfl⟩) step
  exact (mem_strings_ordered _).mpr (within_member "steps" (List.mem_singleton_self _) steps text inside)

theorem consistent_build (dsls : List Dsl) : (build dsls).Consistent := by
  obtain ⟨proper,_⟩ := built dsls
  have listed : ∀ id source, (id,source) ∈ (build dsls).ordered ↔ (build dsls).idFor source = some id :=
    fun id source => mem_ordered.trans (idFor_freeze proper).symm
  refine ⟨?_,?_,listed⟩
  · rw [build,len_freeze]
    exact ordered_ids _
  · intro source other id here there
    have same := ((idFor_freeze proper).mp here).symm.trans ((idFor_freeze proper).mp there)
    exact Option.some.inj same

/-- Every script of a registered DSL has an id. -/
theorem extracted_registered (held : dsl ∈ dsls) (inside : text ∈ dsl.toValue.strings)
    (member : source ∈ extracted text) :
    ∃ id < (build dsls).len, (build dsls).idFor source = some id := by
  obtain ⟨proper,sources⟩ := built dsls
  have found : source ∈ (dsls.foldl addDsl {}).sources :=
    (sources source).mpr ⟨dsl,held,List.mem_flatMap.mpr ⟨text,inside,mem_scriptSources member⟩⟩
  obtain ⟨id,at'⟩ := List.mem_iff_getElem?.mp found
  have given : (build dsls).idFor source = some id := (idFor_freeze proper).mpr at'
  exact ⟨id,(consistent_build dsls).lt given,given⟩

end Complete

end Registry

end Ruuter
