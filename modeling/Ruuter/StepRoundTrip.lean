import Ruuter.StepJson
import Ruuter.Untagged

/-! What is written is read back. The serialiser leaves out what is absent, and the deserialiser
takes `null` for absent, so a step that a deserialiser can give holds no `null` in an optional
field; every such step comes back from its JSON as it was, through the untagged enum as well. -/
namespace Ruuter

namespace Reader
variable {α β : Type}

/-- A reader gives back a value that was written, and the text of the value is not `null`. -/
def Inverts (r : Reader α) (write : α → Json) (a : α) : Prop := r.read (write a) = some a ∧ write a ≠ .null

theorem string_inverts (text : String) : string.Inverts .string text := ⟨rfl,nofun⟩

theorem bool_inverts (b : Bool) : bool.Inverts .bool b := ⟨rfl,nofun⟩

/-- A field of type `Value` that is always written may be `null`. -/
theorem any_read (value : Json) : any.read value = some value := rfl

theorem any_inverts {value : Json} (present : value ≠ .null) : any.Inverts id value := ⟨rfl,present⟩

theorem u64_inverts (n : UInt64) : u64.Inverts jsonOfU64 n := by
  refine ⟨?_,nofun⟩
  have below : n.toNat < 2 ^ 64 := n.toNat_lt
  simp only [u64,unsigned,jsonOfU64,if_pos below,UInt64.ofNat_toNat]

theorem u32_inverts (n : UInt32) : u32.Inverts jsonOfU32 n := by
  refine ⟨?_,nofun⟩
  have below : n.toNat < 2 ^ 32 := n.toNat_lt
  simp only [u32,unsigned,jsonOfU32,jsonOfU64,UInt32.toNat_toUInt64,if_pos below,UInt32.ofNat_toNat]

theorem u16_inverts (n : UInt16) : u16.Inverts jsonOfU16 n := by
  refine ⟨?_,nofun⟩
  have below : n.toNat < 2 ^ 16 := n.toNat_lt
  simp only [u16,unsigned,jsonOfU16,jsonOfU64,UInt16.toNat_toUInt64,if_pos below,UInt16.ofNat_toNat]

theorem list_inverts {r : Reader α} {items : List α}
    (each : ∀ item ∈ items, r.read (write item) = some item) :
    (list r).Inverts (fun items => .array (items.map write)) items := by
  refine ⟨?_,nofun⟩
  show (items.map write).mapM r.read = some items
  induction items with
  | nil => rfl
  | cons item rest ih =>
    rw [List.map_cons,List.mapM_cons,each item List.mem_cons_self,
      ih fun other member => each other (List.mem_cons_of_mem _ member)]
    rfl

theorem nullable_inverts {r : Reader α} (inverts : r.Inverts write a) :
    r.nullable.read (write a) = some (some a) := by
  obtain ⟨read,present⟩ := inverts
  simp only [nullable]
  rw [read]
  rfl

end Reader

namespace Layout
variable {α β : Type}

theorem ap_some {f : Layout (α → β)} {x : Layout α} (first : f.read s = some g) (second : x.read s = some a) :
    (f.ap x).read s = some (g a) :=
  ap_read.mpr ⟨g,first,a,second,rfl⟩

theorem required_some {r : Reader α} (read : r.read j = some a) (found : members.lookup name = some j) :
    (required name r).read { members } = some a :=
  required_read.mpr ⟨_,found,read⟩

theorem field_some {r : Reader α} (read : r.read j = some a) (found : members.lookup name = some j)
    (others : ∀ other ∈ aliases, members.lookup other = none) :
    (field name aliases absent r).read { members } = some a := by
  have none : aliases.filterMap (fun other => members.lookup other) = [] :=
    List.filterMap_eq_nil_iff.mpr others
  simp only [field,Source.values,List.filterMap_cons,found,none]
  exact read

theorem field_none {r : Reader α} (missing : absent false = some a)
    (found : ∀ other ∈ name :: aliases, members.lookup other = none) :
    (field name aliases absent r).read { members } = some a := by
  have none : (name :: aliases).filterMap (fun other => members.lookup other) = [] :=
    List.filterMap_eq_nil_iff.mpr found
  simp only [field,Source.values,none]
  exact missing

theorem defaultedNone_some {r : Reader α} {value : Option α} (inverts : ∀ a, value = some a → r.Inverts write a)
    (found : members.lookup name = value.map write)
    (others : ∀ other ∈ aliases, members.lookup other = none) :
    (defaultedNone name r aliases).read { members } = some value := by
  show (field name aliases (fun _ => some none) r.nullable).read { members } = some value
  cases value with
  | none => exact field_none rfl (List.forall_mem_cons.mpr ⟨found,others⟩)
  | some a => exact field_some (Reader.nullable_inverts (inverts a rfl)) found others

theorem optional_some {r : Reader α} {value : Option α} (inverts : ∀ a, value = some a → r.Inverts write a)
    (found : members.lookup name = value.map write) : (optional name r).read { members } = some value := by
  cases value with
  | none => exact field_none rfl (List.forall_mem_singleton.mpr found)
  | some a => exact field_some (Reader.nullable_inverts (inverts a rfl)) found (by simp)

/-- An optional field that is written as `null` when it is absent. -/
theorem optional_nullable {r : Reader α} {value : Option α} (inverts : ∀ a, value = some a → r.Inverts write a)
    (found : members.lookup name = some (nullableJson write value)) :
    (optional name r).read { members } = some value := by
  cases value with
  | none => exact field_some rfl found (by simp)
  | some a => exact field_some (Reader.nullable_inverts (inverts a rfl)) found (by simp)

theorem defaulted_some {r : Reader α} (read : r.read j = some a) (found : members.lookup name = some j) :
    (defaulted name value r).read { members } = some a :=
  field_some read found (by simp)

end Layout

@[simp] theorem lookup_optionalMember {value : Option α} :
    (optionalMember name value write).lookup key = if key = name then value.map write else none := by
  unfold optionalMember
  cases value with
  | none => simp
  | some held =>
    by_cases same : key = name
    · simp [same]
    · simp [List.lookup_cons,beq_false_of_ne same,same]

/-- An optional value is not `null`: that is how its absence is written. -/
def NotNull (value : Option Json) : Prop := ∀ j, value = some j → j ≠ .null

theorem NotNull.inverts {value : Option Json} (holds : NotNull value) :
    ∀ j, value = some j → Reader.any.Inverts id j :=
  fun j given => Reader.any_inverts (holds j given)

theorem baseStepFields_read (base : BaseStepFields)
    (skip : members.lookup "skip" = base.skip.map .bool)
    (sleep : members.lookup "sleep" = base.sleep.map jsonOfU64)
    (most : members.lookup "max_recursions" = base.maxRecursions.map jsonOfU32)
    (mostAlias : members.lookup "maxRecursions" = none)
    (reload : members.lookup "reload_dsl" = base.reloadDsl.map .bool)
    (reloadAliases : ∀ other ∈ ["reload_dsls","reloadDsl","reloadDsls"], members.lookup other = none) :
    baseStepFields.read { members } = some base := by
  obtain ⟨skipped,slept,recursions,reloads⟩ := base
  unfold baseStepFields
  refine Layout.ap_some (Layout.ap_some (Layout.ap_some (Layout.ap_some rfl ?_) ?_) ?_) ?_
  · exact Layout.defaultedNone_some (fun b _ => Reader.bool_inverts b) skip (by simp)
  · exact Layout.defaultedNone_some (fun n _ => Reader.u64_inverts n) sleep (by simp)
  · exact Layout.defaultedNone_some (fun n _ => Reader.u32_inverts n) most (by simpa using mostAlias)
  · exact Layout.defaultedNone_some (fun b _ => Reader.bool_inverts b) reload reloadAliases

theorem lookup_base (base : BaseStepFields) (other : key ∉ controlKeys) : base.members.lookup key = none := by
  simp only [controlKeys,List.mem_cons,List.not_mem_nil,or_false,not_or] at other
  simp [BaseStepFields.members,List.lookup_append,other]

/-- The members of a step around those of its action. -/
def written (action : List (String × Json)) (next : Option String) (base : BaseStepFields) :
    List (String × Json) :=
  action ++ (optionalMember "next" next .string ++ base.members)

section Written
variable {action : List (String × Json)} {next : Option String} {base : BaseStepFields}

theorem lookup_written (other : key ∉ controlKeys) : (written action next base).lookup key = action.lookup key := by
  have apart : key ≠ "next" := by
    rintro rfl
    exact other (by decide)
  simp [written,List.lookup_append,lookup_base base other,apart]

theorem next_read (fresh : ∀ key ∈ controlKeys, action.lookup key = none) :
    (Layout.optional "next" Reader.string).read { members := written action next base } = some next := by
  refine Layout.optional_some (fun text _ => Reader.string_inverts text) ?_
  have none : action.lookup "next" = none := fresh _ (by decide)
  simp [written,List.lookup_append,none,BaseStepFields.members]

theorem base_read (fresh : ∀ key ∈ controlKeys, action.lookup key = none) :
    baseStepFields.read { members := written action next base } = some base := by
  have inside : ∀ key ∈ controlKeys, key ≠ "next" →
      (written action next base).lookup key = base.members.lookup key := by
    intro key control apart
    simp [written,List.lookup_append,fresh key control,apart]
  refine baseStepFields_read base ?_ ?_ ?_ ?_ ?_ ?_
  · rw [inside _ (by decide) (by decide)]
    simp [BaseStepFields.members,List.lookup_append]
  · rw [inside _ (by decide) (by decide)]
    simp [BaseStepFields.members,List.lookup_append]
  · rw [inside _ (by decide) (by decide)]
    simp [BaseStepFields.members,List.lookup_append]
  · rw [inside _ (by decide) (by decide)]
    simp [BaseStepFields.members,List.lookup_append]
  · rw [inside _ (by decide) (by decide)]
    simp [BaseStepFields.members,List.lookup_append]
  · intro other member
    simp only [List.mem_cons,List.not_mem_nil,or_false] at member
    obtain rfl | rfl | rfl := member
    all_goals
      rw [inside _ (by decide) (by decide)]
      simp [BaseStepFields.members,List.lookup_append]

/-- A step with one action and its options reads back when the action does. -/
theorem flat_written {record : Layout (Option String → BaseStepFields → α)}
    (fresh : ∀ key ∈ controlKeys, action.lookup key = none)
    (read : record.read { members := written action next base } = some f) :
    (Reader.flat (record.ap (Layout.optional "next" Reader.string) |>.ap baseStepFields)).read
      (stepObject action next base) = some (f next base) :=
  Layout.ap_some (Layout.ap_some read (next_read fresh)) (base_read fresh)

/-- Such a step whose only field is its action. -/
theorem single_written {r : Reader α} {build : α → Option String → BaseStepFields → β}
    (fresh : name ∉ controlKeys) (read : r.read j = some a) :
    (Reader.flat (Layout.build build |>.ap (Layout.required name r) |>.ap (Layout.optional "next" Reader.string)
      |>.ap baseStepFields)).read (stepObject [(name,j)] next base) = some (build a next base) := by
  refine flat_written ?_ (Layout.ap_some rfl (Layout.required_some read ?_))
  · intro key control
    have apart : key ≠ name := by
      rintro rfl
      exact fresh control
    simp [List.lookup_cons,beq_false_of_ne apart]
  · rw [lookup_written fresh]
    simp

end Written

set_option linter.unusedSimpArgs false

section Records

theorem struct_read {record : Layout α} (read : record.read { members } = some a) :
    (Reader.struct record).read (.object members) = some a := read

theorem toAList_entries {entries : List (Sigma fun _ : String => Json)} (distinct : entries.NodupKeys) :
    entries.toAList.entries = entries := by
  show entries.dedupKeys = entries
  induction entries with
  | nil => rfl
  | cons entry rest ih =>
    obtain ⟨fresh,later⟩ := List.nodupKeys_cons.mp distinct
    rw [List.dedupKeys_cons,ih later,List.kinsert_def,List.kerase_of_notMem_keys fresh]

theorem mapping_read (map : StringMap Json) : Reader.mapping.read (jsonOfMap map) = some map := by
  have entries : (map.entries.map fun entry => (entry.1,entry.2)).map
      (fun member => (⟨member.1,member.2⟩ : Sigma fun _ : String => Json)) = map.entries := by
    rw [List.map_map]
    exact List.map_id' _
  show some ((map.entries.map fun entry => (entry.1,entry.2)).map
    fun member => (⟨member.1,member.2⟩ : Sigma fun _ : String => Json)).toAList = some map
  rw [entries]
  exact congrArg some (AList.ext (toAList_entries map.nodupKeys))

def HttpArgs.Canonical (args : HttpArgs) : Prop :=
  NotNull args.body ∧ NotNull args.query ∧ NotNull args.headers

theorem httpArgs_inverts {args : HttpArgs} (canonical : args.Canonical) :
    (Reader.struct httpArgs).Inverts HttpArgs.toJson args := by
  obtain ⟨url,body,query,headers,contentType⟩ := args
  obtain ⟨bodyHeld,queryHeld,headersHeld⟩ := canonical
  refine ⟨struct_read (Layout.ap_some (Layout.ap_some (Layout.ap_some (Layout.ap_some (Layout.ap_some rfl
    (Layout.required_some (Reader.string_inverts url).1 ?_)) (Layout.optional_some bodyHeld.inverts ?_))
    (Layout.optional_some queryHeld.inverts ?_)) (Layout.optional_some headersHeld.inverts ?_))
    (Layout.optional_some (fun text _ => Reader.string_inverts text) ?_)),nofun⟩
  all_goals simp [List.lookup_append,List.lookup_cons]

theorem httpMockArgs_read {args : HttpMockArgs} (canonical : NotNull args.request) :
    (Reader.struct httpMockArgs).read args.toJson = some args := by
  obtain ⟨request,response,status⟩ := args
  refine struct_read (Layout.ap_some (Layout.ap_some (Layout.ap_some rfl
    (Layout.defaultedNone_some canonical.inverts ?_ (by simp))) (Layout.required_some (Reader.any_read response) ?_))
    (Layout.defaultedNone_some (fun n _ => Reader.u16_inverts n) ?_ (by simp)))
  all_goals simp [List.lookup_append,List.lookup_cons]

theorem condition_read (c : Condition) : (Reader.struct condition).read c.toJson = some c := by
  obtain ⟨text,next⟩ := c
  exact struct_read (Layout.ap_some (Layout.ap_some rfl (Layout.required_some (Reader.string_inverts text).1 rfl))
    (Layout.required_some (Reader.string_inverts next).1 rfl))

theorem stateOp_read (op : StateOp) : (stateOp buffered).read op.toJson = some op := by
  have flat_or_struct : ∀ record : Layout StateOp, ∀ members op, record.read { members } = some op →
      (if buffered then Reader.struct record else Reader.flat record).read (.object members) = some op := by
    intro record members op read
    cases buffered with
    | true => exact read
    | false => exact read
  cases op with
  | get key into =>
    refine flat_or_struct _ _ _ (Layout.ap_some (Layout.ap_some rfl ?_) ?_)
    · exact Layout.required_some (Reader.string_inverts key).1 rfl
    · exact Layout.required_some (Reader.string_inverts into).1 rfl
  | set key value =>
    refine flat_or_struct _ _ _ (Layout.ap_some (Layout.ap_some rfl ?_) ?_)
    · exact Layout.required_some (Reader.string_inverts key).1 rfl
    · exact Layout.required_some (Reader.any_read value) rfl
  | delete key =>
    refine flat_or_struct _ _ _ (Layout.ap_some rfl ?_)
    exact Layout.required_some (Reader.string_inverts key).1 rfl

theorem aggregateMode_read (mode : AggregateMode) : aggregateMode.read (.string mode.text) = some mode := by
  cases mode <;> rfl

theorem remainingPeersAfter_inverts (after : RemainingPeersAfter) :
    remainingPeersAfter.Inverts (fun after => .string after.text) after := by
  refine ⟨?_,nofun⟩
  cases after <;> rfl

theorem range_inverts (range : UInt16 × UInt16) :
    (Reader.pair Reader.u16).Inverts (fun range => .array [jsonOfU16 range.1,jsonOfU16 range.2]) range := by
  refine ⟨?_,nofun⟩
  simp only [Reader.pair,(Reader.u16_inverts range.1).1,(Reader.u16_inverts range.2).1]
  rfl

theorem earlyExitOn_inverts (exit : EarlyExitOn) : (Reader.struct earlyExitOn).Inverts EarlyExitOn.toJson exit := by
  obtain ⟨range,predicate⟩ := exit
  refine ⟨struct_read (Layout.ap_some (Layout.ap_some rfl
    (Layout.defaultedNone_some (fun range _ => range_inverts range) ?_ (by simp)))
    (Layout.defaultedNone_some (fun text _ => Reader.string_inverts text) ?_ (by simp))),nofun⟩
  all_goals simp [List.lookup_append]

theorem parallelHttpBody_read {b : ParallelHttpBody} (canonical : b.args.Canonical) :
    (Reader.struct parallelHttpBody).read b.toJson = some b := by
  obtain ⟨peers,call,args,timeout,most,aggregate,firstN,exit,after,result⟩ := b
  refine struct_read ?_
  unfold parallelHttpBody
  repeat' refine Layout.ap_some ?_ ?_
  · rfl
  · exact Layout.required_some (Reader.string_inverts peers).1 (by simp [List.lookup_append,List.lookup_cons])
  · exact Layout.defaulted_some (Reader.string_inverts call).1 (by simp [List.lookup_append,List.lookup_cons])
  · exact Layout.required_some (httpArgs_inverts canonical).1 (by simp [List.lookup_append,List.lookup_cons])
  · exact Layout.optional_some (fun n _ => Reader.u64_inverts n) (by simp [List.lookup_append,List.lookup_cons])
  · exact Layout.defaultedNone_some (fun n _ => Reader.u32_inverts n) (by simp [List.lookup_append,List.lookup_cons])
      (by simp)
  · exact Layout.required_some (aggregateMode_read aggregate) (by simp [List.lookup_append,List.lookup_cons])
  · exact Layout.defaultedNone_some (fun n _ => Reader.u32_inverts n) (by simp [List.lookup_append,List.lookup_cons])
      (by simp)
  · exact Layout.defaultedNone_some (fun exit _ => earlyExitOn_inverts exit)
      (by simp [List.lookup_append,List.lookup_cons]) (by simp)
  · exact Layout.defaultedNone_some (fun after _ => remainingPeersAfter_inverts after)
      (by simp [List.lookup_append,List.lookup_cons]) (by simp)
  · exact Layout.required_some (Reader.string_inverts result).1 (by simp [List.lookup_append,List.lookup_cons])

theorem broadcastWhere_inverts {bw : BroadcastWhere} (canonical : NotNull bw.equals ∧ NotNull bw.contains) :
    (Reader.struct broadcastWhere).Inverts BroadcastWhere.toJson bw := by
  obtain ⟨tag,equals,contains⟩ := bw
  refine ⟨struct_read (Layout.ap_some (Layout.ap_some (Layout.ap_some rfl
    (Layout.required_some (Reader.any_read tag) ?_)) (Layout.defaultedNone_some canonical.1.inverts ?_ (by simp)))
    (Layout.defaultedNone_some canonical.2.inverts ?_ (by simp))),nofun⟩
  all_goals simp [List.lookup_append,List.lookup_cons]

/-- A payload may be `null`; a target, and what a tag is compared with, may not. -/
structure WsSendArgs.Canonical (args : WsSendArgs) : Prop where
  target : NotNull args.to
  compared : ∀ bw, args.broadcastWhere = some bw → NotNull bw.equals ∧ NotNull bw.contains

theorem wsSendArgs_read {args : WsSendArgs} (canonical : args.Canonical) :
    (Reader.struct wsSendArgs).read args.toJson = some args := by
  obtain ⟨target,payload,idPrefix,bw⟩ := args
  refine struct_read (Layout.ap_some (Layout.ap_some (Layout.ap_some (Layout.ap_some rfl
    (Layout.optional_some canonical.target.inverts ?_)) (Layout.required_some (Reader.any_read payload) ?_))
    (Layout.optional_some (fun text _ => Reader.string_inverts text) ?_))
    (Layout.optional_some (fun bw given => broadcastWhere_inverts (canonical.compared bw given)) ?_))
  all_goals simp [List.lookup_append,List.lookup_cons]

/-- The map of a `ws_tag` is kept in key order. -/
def WsTagArgs.Canonical (args : WsTagArgs) : Prop := args.set.entries.Pairwise fun a b => a.1 < b.1

theorem insertMember_front {rest : List (String × Json)} (first : ∀ member ∈ rest, key < member.1) :
    Json.insertMember key value rest = (key,value) :: rest := by
  cases rest with
  | nil => rfl
  | cons member later =>
    obtain ⟨other,held⟩ := member
    have below : key < other := first _ List.mem_cons_self
    rw [Json.insertMember,if_pos below]

theorem members_in_order {entries : List (Sigma fun _ : String => Json)}
    (sorted : entries.Pairwise fun a b => a.1 < b.1) :
    entries.foldr (fun entry members => Json.insertMember entry.1 entry.2 members) [] =
      entries.map fun entry => (entry.1,entry.2) := by
  induction entries with
  | nil => rfl
  | cons entry rest ih =>
    obtain ⟨first,later⟩ := List.pairwise_cons.mp sorted
    rw [List.foldr_cons,ih later,List.map_cons]
    refine insertMember_front fun member inside => ?_
    obtain ⟨other,held,rfl⟩ := List.mem_map.mp inside
    exact first other held

theorem wsTagArgs_read {args : WsTagArgs} (canonical : args.Canonical) :
    (Reader.struct wsTagArgs).read args.toJson = some args := by
  obtain ⟨map⟩ := args
  refine struct_read (Layout.ap_some rfl (Layout.required_some (mapping_read map) ?_))
  rw [members_in_order canonical]
  rfl

/-- No default is `null`, in the entry and in the entries it nests. -/
def DslField.Canonical : DslField → Prop
  | ⟨_,_,_,_,_,default,none⟩ => NotNull default
  | ⟨_,_,_,_,_,default,some item⟩ => NotNull default ∧ item.Canonical

theorem dslField_unfold (j : Json) : dslField.read j = (Reader.struct (dslFieldOf dslField)).read j :=
  Reader.fix_read (fun _ _ _ agree => .struct (dslFieldOf_agree agree)) j

/-- The entries nested in an entry are written by `write` and read by `items`. -/
theorem dslFieldOf_read {items : Reader DslField} (write : DslField → Json) (f : DslField)
    (default : NotNull f.default)
    (nested : ∀ item, f.items = some item → items.Inverts write item)
    (found : members = ("field",.string f.field) :: (optionalMember "type" f.fieldType .string ++
      optionalMember "required" f.required .bool ++ optionalMember "format" f.format .string ++
      optionalMember "description" f.description .string ++ optionalMember "default" f.default id ++
      optionalMember "items" f.items write)) :
    (dslFieldOf items).read { members } = some f := by
  obtain ⟨field,fieldType,required,format,description,value,item⟩ := f
  subst found
  refine Layout.ap_some (Layout.ap_some (Layout.ap_some (Layout.ap_some (Layout.ap_some (Layout.ap_some
    (Layout.ap_some rfl (Layout.required_some (Reader.string_inverts field).1 ?_))
    (Layout.defaultedNone_some (fun text _ => Reader.string_inverts text) ?_ (by simp)))
    (Layout.defaultedNone_some (fun b _ => Reader.bool_inverts b) ?_ (by simp)))
    (Layout.defaultedNone_some (fun text _ => Reader.string_inverts text) ?_ (by simp)))
    (Layout.defaultedNone_some (fun text _ => Reader.string_inverts text) ?_ (by simp)))
    (Layout.defaultedNone_some default.inverts ?_ (by simp)))
    (Layout.defaultedNone_some nested ?_ (by simp))
  all_goals simp [List.lookup_append,List.lookup_cons]

theorem dslField_present (f : DslField) : f.toJson ≠ .null := by
  obtain ⟨field,fieldType,required,format,description,default,items⟩ := f
  cases items with
  | none =>
    rw [DslField.toJson]
    exact Json.noConfusion
  | some item =>
    rw [DslField.toJson]
    exact Json.noConfusion

theorem dslField_read (f : DslField) (canonical : f.Canonical) : dslField.read f.toJson = some f := by
  obtain ⟨field,fieldType,required,format,description,default,items⟩ := f
  cases items with
  | none =>
    rw [dslField_unfold,DslField.toJson]
    refine struct_read (dslFieldOf_read DslField.toJson _ canonical (fun item given => by cases given) ?_)
    simp [optionalMember]
  | some item =>
    rw [dslField_unfold,DslField.toJson]
    have inner := dslField_read item canonical.2
    refine struct_read (dslFieldOf_read DslField.toJson _ canonical.1 (fun other given => ?_) ?_)
    · cases given
      exact ⟨inner,dslField_present item⟩
    · simp [optionalMember]

theorem dslFields_inverts {fields : List DslField} (canonical : ∀ f ∈ fields, f.Canonical) :
    (Reader.list dslField).Inverts jsonOfFields fields :=
  Reader.list_inverts fun f member => dslField_read f (canonical f member)

theorem strings_inverts (items : List String) : (Reader.list Reader.string).Inverts jsonOfStrings items :=
  Reader.list_inverts fun text _ => (Reader.string_inverts text).1

theorem groups_inverts (lists : List (List String)) :
    (Reader.list (Reader.list Reader.string)).Inverts (fun lists => .array (lists.map jsonOfStrings)) lists :=
  Reader.list_inverts fun items _ => (strings_inverts items).1

theorem requiredOneOf_inverts (r : RequiredOneOf) : (Reader.struct requiredOneOf).Inverts RequiredOneOf.toJson r := by
  obtain ⟨body,headers,params⟩ := r
  refine ⟨struct_read (Layout.ap_some (Layout.ap_some (Layout.ap_some rfl
    (Layout.defaultedNone_some (fun lists _ => groups_inverts lists) ?_ (by simp)))
    (Layout.defaultedNone_some (fun lists _ => groups_inverts lists) ?_ ?_))
    (Layout.defaultedNone_some (fun lists _ => groups_inverts lists) ?_ (by simp))),nofun⟩
  all_goals simp [List.lookup_append]

/-- The entries of every section are canonical. -/
structure Allowlist.Canonical (a : Allowlist) : Prop where
  body : ∀ fields, a.body = some fields → ∀ f ∈ fields, f.Canonical
  headers : ∀ fields, a.headers = some fields → ∀ f ∈ fields, f.Canonical
  params : ∀ fields, a.params = some fields → ∀ f ∈ fields, f.Canonical

theorem allowlist_inverts {a : Allowlist} (canonical : a.Canonical) :
    (Reader.struct allowlist).Inverts Allowlist.toJson a := by
  obtain ⟨body,headers,params,oneOf⟩ := a
  refine ⟨struct_read (Layout.ap_some (Layout.ap_some (Layout.ap_some (Layout.ap_some rfl
    (Layout.defaultedNone_some (fun fields given => dslFields_inverts (canonical.body fields given)) ?_ (by simp)))
    (Layout.defaultedNone_some (fun fields given => dslFields_inverts (canonical.headers fields given)) ?_ ?_))
    (Layout.defaultedNone_some (fun fields given => dslFields_inverts (canonical.params fields given)) ?_ (by simp)))
    (Layout.defaultedNone_some (fun r _ => requiredOneOf_inverts r) ?_ (by simp))),nofun⟩
  all_goals simp [List.lookup_append]

theorem nullable_written {r : Reader α} {value : Option α} (inverts : ∀ a, value = some a → r.Inverts write a) :
    r.nullable.read (nullableJson write value) = some value := by
  cases value with
  | none => rfl
  | some a => exact Reader.nullable_inverts (inverts a rfl)

theorem proxyDeclaration_inverts (p : ProxyDeclaration) :
    (Reader.struct proxyDeclaration).Inverts ProxyDeclaration.toJson p := by
  obtain ⟨upstream,preserve,most,inFlight,progress,encodings,timeout⟩ := p
  refine ⟨struct_read (Layout.ap_some (Layout.ap_some (Layout.ap_some (Layout.ap_some (Layout.ap_some (Layout.ap_some
    (Layout.ap_some rfl (Layout.required_some (Reader.string_inverts upstream).1 ?_))
    (Layout.defaulted_some (Reader.bool_inverts preserve).1 ?_))
    (Layout.required_some (Reader.u64_inverts most).1 ?_))
    (Layout.defaulted_some (nullable_written fun n _ => Reader.u32_inverts n) ?_))
    (Layout.defaulted_some (nullable_written fun n _ => Reader.u64_inverts n) ?_))
    (Layout.defaulted_some (strings_inverts encodings).1 ?_))
    (Layout.defaulted_some (nullable_written fun n _ => Reader.u64_inverts n) ?_)),nofun⟩
  all_goals simp [List.lookup_cons]

/-- The entries of the allowlist and of the response are canonical. -/
structure DeclarationStep.Canonical (d : DeclarationStep) : Prop where
  allowlist : ∀ a, d.allowlist = some a → a.Canonical
  returns : ∀ fields, d.returns = some fields → ∀ f ∈ fields, f.Canonical

theorem declaration_written {d : DeclarationStep} (canonical : d.Canonical) :
    (Reader.flat declarationStep).read d.toJson = some d := by
  obtain ⟨version,description,ns,body,header,params,allowed,returned,strict,additive,ancestors,proxied,hidden,base⟩ := d
  show declarationStep.read _ = _
  unfold declarationStep
  repeat' refine Layout.ap_some ?_ ?_
  · rfl
  · exact Layout.optional_nullable (fun text _ => Reader.string_inverts text) (by simp [List.lookup_cons])
  · exact Layout.optional_nullable (fun text _ => Reader.string_inverts text) (by simp [List.lookup_cons])
  · exact Layout.optional_nullable (fun text _ => Reader.string_inverts text) (by simp [List.lookup_cons])
  · exact Layout.optional_nullable (fun items _ => strings_inverts items) (by simp [List.lookup_cons])
  · exact Layout.optional_nullable (fun items _ => strings_inverts items) (by simp [List.lookup_cons])
  · exact Layout.optional_nullable (fun items _ => strings_inverts items) (by simp [List.lookup_cons])
  · exact Layout.optional_some (fun a given => allowlist_inverts (canonical.allowlist a given))
      (by simp [List.lookup_cons,List.lookup_append,BaseStepFields.members])
  · exact Layout.defaultedNone_some (fun fields given => dslFields_inverts (canonical.returns fields given))
      (by simp [List.lookup_cons,List.lookup_append,BaseStepFields.members]) (by simp)
  · exact Layout.defaultedNone_some (fun b _ => Reader.bool_inverts b)
      (by simp [List.lookup_cons,List.lookup_append,BaseStepFields.members]) (by simp)
  · exact Layout.defaultedNone_some (fun b _ => Reader.bool_inverts b)
      (by simp [List.lookup_cons,List.lookup_append,BaseStepFields.members]) (by simp)
  · exact Layout.optional_nullable (fun b _ => Reader.bool_inverts b)
      (by simp [List.lookup_cons,List.lookup_append])
  · exact Layout.defaultedNone_some (fun p _ => proxyDeclaration_inverts p)
      (by simp [List.lookup_cons,List.lookup_append,BaseStepFields.members]) (by simp)
  · exact Layout.defaultedNone_some (fun b _ => Reader.bool_inverts b)
      (by simp [List.lookup_cons,List.lookup_append,BaseStepFields.members]) (by simp)
  · refine baseStepFields_read base ?_ ?_ ?_ ?_ ?_ ?_
    all_goals simp [List.lookup_cons,List.lookup_append,BaseStepFields.members]

theorem return_written {s : ReturnStep} (canonical : NotNull s.status ∧ NotNull s.headers) :
    (Reader.flat returnStep).read (DslStep.returnStep s).toJson = some s := by
  obtain ⟨value,status,headers,wrapper,next,base⟩ := s
  rw [DslStep.toJson]
  refine flat_written ?_ ?_
  · simp [controlKeys,List.lookup_append,List.lookup_cons]
  · refine Layout.ap_some (Layout.ap_some (Layout.ap_some (Layout.ap_some rfl ?_) ?_) ?_) ?_
    · exact Layout.required_some (Reader.any_read value) ((lookup_written (by decide)).trans (by simp))
    · exact Layout.optional_some canonical.1.inverts
        ((lookup_written (by decide)).trans (by simp [List.lookup_append,List.lookup_cons]))
    · exact Layout.optional_some canonical.2.inverts
        ((lookup_written (by decide)).trans (by simp [List.lookup_append,List.lookup_cons]))
    · exact Layout.optional_some (fun b _ => Reader.bool_inverts b)
        ((lookup_written (by decide)).trans (by simp [List.lookup_append,List.lookup_cons]))

theorem http_written {s : HttpStep} (canonical : s.args.Canonical) :
    (Reader.flat httpStep).read (DslStep.http s).toJson = some s := by
  obtain ⟨call,args,result,next,target,timeout,base⟩ := s
  rw [DslStep.toJson]
  show httpStep.read _ = _
  unfold httpStep
  repeat' refine Layout.ap_some ?_ ?_
  · rfl
  · exact Layout.required_some (Reader.string_inverts call).1 (by simp)
  · exact Layout.required_some (httpArgs_inverts canonical).1 (by simp [List.lookup_cons])
  · exact Layout.optional_some (fun text _ => Reader.string_inverts text)
      (by simp [List.lookup_cons,List.lookup_append,BaseStepFields.members])
  · exact Layout.optional_some (fun text _ => Reader.string_inverts text)
      (by simp [List.lookup_cons,List.lookup_append,BaseStepFields.members])
  · exact Layout.optional_some (fun text _ => Reader.string_inverts text)
      (by simp [List.lookup_cons,List.lookup_append,BaseStepFields.members])
  · exact Layout.optional_some (fun n _ => Reader.u64_inverts n)
      (by simp [List.lookup_cons,List.lookup_append,BaseStepFields.members])
  · refine baseStepFields_read base ?_ ?_ ?_ ?_ ?_ ?_
    all_goals simp [List.lookup_cons,List.lookup_append,BaseStepFields.members]

theorem httpMock_written {s : HttpMockStep} (canonical : NotNull s.args.request) :
    (Reader.flat httpMockStep).read (DslStep.httpMock s).toJson = some s := by
  obtain ⟨call,args,result,next,base⟩ := s
  rw [DslStep.toJson]
  refine flat_written ?_ ?_
  · simp [controlKeys,List.lookup_append,List.lookup_cons]
  · refine Layout.ap_some (Layout.ap_some (Layout.ap_some rfl ?_) ?_) ?_
    · exact Layout.required_some (Reader.string_inverts call).1 ((lookup_written (by decide)).trans (by simp))
    · exact Layout.required_some (httpMockArgs_read canonical)
        ((lookup_written (by decide)).trans (by simp [List.lookup_cons]))
    · exact Layout.optional_some (fun text _ => Reader.string_inverts text)
        ((lookup_written (by decide)).trans (by simp [List.lookup_append,List.lookup_cons]))

theorem switch_written (s : SwitchStep) : (Reader.flat switchStep).read (DslStep.switch s).toJson = some s := by
  rw [DslStep.toJson]
  exact single_written (by decide) (Reader.list_inverts fun c _ => condition_read c).1

theorem template_written {s : TemplateStep} (canonical : NotNull s.body ∧ NotNull s.query ∧ NotNull s.headers) :
    (Reader.flat templateStep).read (DslStep.template s).toJson = some s := by
  obtain ⟨template,result,requestType,body,query,headers,next,base⟩ := s
  obtain ⟨bodyHeld,queryHeld,headersHeld⟩ := canonical
  rw [DslStep.toJson]
  refine flat_written ?_ ?_
  · simp [controlKeys,List.lookup_append,List.lookup_cons]
  · refine Layout.ap_some (Layout.ap_some (Layout.ap_some (Layout.ap_some (Layout.ap_some (Layout.ap_some rfl
      ?_) ?_) ?_) ?_) ?_) ?_
    · exact Layout.required_some (Reader.string_inverts template).1 ((lookup_written (by decide)).trans (by simp))
    · exact Layout.optional_some (fun text _ => Reader.string_inverts text)
        ((lookup_written (by decide)).trans (by simp [List.lookup_append,List.lookup_cons]))
    · exact Layout.optional_some (fun text _ => Reader.string_inverts text)
        ((lookup_written (by decide)).trans (by simp [List.lookup_append,List.lookup_cons]))
    · exact Layout.optional_some bodyHeld.inverts
        ((lookup_written (by decide)).trans (by simp [List.lookup_append,List.lookup_cons]))
    · exact Layout.optional_some queryHeld.inverts
        ((lookup_written (by decide)).trans (by simp [List.lookup_append,List.lookup_cons]))
    · exact Layout.optional_some headersHeld.inverts
        ((lookup_written (by decide)).trans (by simp [List.lookup_append,List.lookup_cons]))

theorem state_written (s : StateStep) :
    (Reader.flat (stateStep buffered)).read (DslStep.state s).toJson = some s := by
  rw [DslStep.toJson]
  exact single_written (by decide) (stateOp_read s.state)

theorem parallelHttp_written {s : ParallelHttpStep} (canonical : s.parallelHttp.args.Canonical) :
    (Reader.flat parallelHttpStep).read (DslStep.parallelHttp s).toJson = some s := by
  rw [DslStep.toJson]
  exact single_written (by decide) (parallelHttpBody_read canonical)

theorem wsSend_written {s : WsSendStep} (canonical : s.wsSend.Canonical) :
    (Reader.flat wsSendStep).read (DslStep.wsSend s).toJson = some s := by
  rw [DslStep.toJson]
  exact single_written (by decide) (wsSendArgs_read canonical)

theorem wsTag_written {s : WsTagStep} (canonical : s.wsTag.Canonical) :
    (Reader.flat wsTagStep).read (DslStep.wsTag s).toJson = some s := by
  rw [DslStep.toJson]
  exact single_written (by decide) (wsTagArgs_read canonical)

theorem assign_written (s : AssignStep) :
    (Reader.flat assignStep).read (DslStep.assign s).toJson = some s := by
  rw [DslStep.toJson]
  exact single_written (by decide) (mapping_read s.assign)

theorem log_written (s : LogStep) : (Reader.flat logStep).read (DslStep.log s).toJson = some s := by
  rw [DslStep.toJson]
  exact single_written (by decide) (Reader.any_read s.log)

theorem body_read {steps : List DslStep} (nested : ∀ sub ∈ steps, dslStep.read sub.toJson = some sub) :
    (Reader.list dslStep).read (.array (bodyJson steps)) = some steps := by
  rw [bodyJson_eq]
  exact (Reader.list_inverts nested).1

theorem iterate_written {s : IterateStep DslStep} (canonical : NotNull s.iterate.collect)
    (nested : ∀ sub ∈ s.iterate.body, dslStep.read sub.toJson = some sub) :
    (Reader.flat (iterateStep dslStep)).read (DslStep.iterate s).toJson = some s := by
  obtain ⟨⟨list,itemVar,body,collect,into,most⟩,next,base⟩ := s
  rw [DslStep.toJson]
  refine single_written (by decide) (struct_read ?_)
  refine Layout.ap_some (Layout.ap_some (Layout.ap_some (Layout.ap_some (Layout.ap_some (Layout.ap_some rfl
    (Layout.required_some (Reader.any_read list) ?_)) (Layout.required_some (Reader.string_inverts itemVar).1 ?_))
    (Layout.required_some (body_read nested) ?_)) (Layout.optional_some canonical.inverts ?_))
    (Layout.optional_some (fun text _ => Reader.string_inverts text) ?_))
    (Layout.optional_some (fun n _ => Reader.u64_inverts n) ?_)
  all_goals simp [List.lookup_append,List.lookup_cons]

theorem detach_written {s : DetachStep DslStep}
    (nested : ∀ sub ∈ s.detach.body, dslStep.read sub.toJson = some sub) :
    (Reader.flat (detachStep dslStep)).read (DslStep.detach s).toJson = some s := by
  obtain ⟨⟨body,timeout⟩,next,base⟩ := s
  rw [DslStep.toJson]
  refine single_written (by decide) (struct_read ?_)
  refine Layout.ap_some (Layout.ap_some rfl (Layout.required_some (body_read nested) ?_))
    (Layout.defaultedNone_some (fun n _ => Reader.u64_inverts n) ?_ (by simp))
  all_goals simp [List.lookup_cons]

theorem singleFlight_written {s : SingleFlightStep DslStep}
    (nested : ∀ sub ∈ s.singleFlight.body, dslStep.read sub.toJson = some sub) :
    (Reader.flat (singleFlightStep dslStep)).read (DslStep.singleFlight s).toJson = some s := by
  obtain ⟨⟨key,ttl,body,result⟩,next,base⟩ := s
  rw [DslStep.toJson]
  refine single_written (by decide) (struct_read ?_)
  refine Layout.ap_some (Layout.ap_some (Layout.ap_some (Layout.ap_some rfl
    (Layout.required_some (Reader.string_inverts key).1 ?_)) (Layout.required_some (Reader.u64_inverts ttl).1 ?_))
    (Layout.required_some (body_read nested) ?_)) (Layout.optional_some (fun text _ => Reader.string_inverts text) ?_)
  all_goals simp [List.lookup_append,List.lookup_cons]

end Records

mutual

/-- A step as a deserialiser can give it. -/
def DslStep.Canonical : DslStep → Prop
  | .returnStep s => NotNull s.status ∧ NotNull s.headers
  | .http s => s.args.Canonical
  | .httpMock s => NotNull s.args.request
  | .template s => NotNull s.body ∧ NotNull s.query ∧ NotNull s.headers
  | .iterate ⟨⟨_,_,body,collect,_,_⟩,_,_⟩ => NotNull collect ∧ bodyCanonical body
  | .parallelHttp s => s.parallelHttp.args.Canonical
  | .detach ⟨⟨body,_⟩,_,_⟩ => bodyCanonical body
  | .wsSend s => s.wsSend.Canonical
  | .wsTag s => s.wsTag.Canonical
  | .singleFlight ⟨⟨_,_,body,_⟩,_,_⟩ => bodyCanonical body
  | .declaration d => d.Canonical
  | .assign _ | .switch _ | .log _ | .state _ => True

def bodyCanonical : List DslStep → Prop
  | [] => True
  | step :: rest => step.Canonical ∧ bodyCanonical rest

end

section Untagged

/-- The fields of steps that are no action. -/
def plainKeys : List String :=
  ["status","headers","wrapper","args","result","error","timeout","request_type","body","query","next","skip",
   "sleep","max_recursions","reload_dsl","version","description","namespace","allowed_body","allowed_header",
   "allowed_params","allowlist","returns","strict","additive","override_ancestors","proxy","internal"]

theorem lookup_other {key name : String} {value : Json} {rest : List (String × Json)} (first : key ≠ name) :
    ((name,value) :: rest).lookup key = rest.lookup key := by
  rw [List.lookup_cons,beq_false_of_ne first]

/-- A step is written with its own action only. -/
theorem lookup_action (step : DslStep) (action : key ∈ actionStepKeys) (other : step.variant.actionKey ≠ some key)
    (members : List (String × Json)) (given : step.toJson = .object members) : members.lookup key = none := by
  have apart : ∀ name ∈ plainKeys, key ≠ name := by
    have disjoint : ∀ key ∈ actionStepKeys, ∀ name ∈ plainKeys, key ≠ name := by decide
    exact disjoint key action
  have control : key ∉ controlKeys := by
    have disjoint : ∀ key ∈ actionStepKeys, key ∉ controlKeys := by decide
    exact disjoint key action
  simp only [plainKeys,List.forall_mem_cons,List.not_mem_nil,false_implies,implies_true,and_true] at apart
  have wrapped : ∀ action next base, stepObject action next base = .object members →
      action.lookup key = none → members.lookup key = none := by
    intro action next base same none
    cases same
    exact (lookup_written control).trans none
  cases step with
  | http s =>
    rw [DslStep.toJson] at given
    cases given
    have own : key ≠ "call" := fun same => other (by rw [same]; rfl)
    simp only [List.lookup_append,List.cons_append,List.nil_append,List.lookup_nil,lookup_other,
      lookup_optionalMember,apart,if_false,Option.or_none,ne_eq,not_false_eq_true,own,lookup_base s.base control]
  | declaration d =>
    rw [DslStep.toJson,DeclarationStep.toJson] at given
    cases given
    simp only [List.lookup_append,List.cons_append,List.nil_append,List.lookup_nil,lookup_other,
      lookup_optionalMember,apart,if_false,Option.or_none,ne_eq,not_false_eq_true,lookup_base d.base control]
  | iterate s =>
    have own : key ≠ "iterate" := fun same => other (by rw [same]; rfl)
    obtain ⟨⟨list,itemVar,body,collect,into,most⟩,next,base⟩ := s
    rw [DslStep.toJson] at given
    exact wrapped _ _ _ given (lookup_other own)
  | detach s =>
    have own : key ≠ "detach" := fun same => other (by rw [same]; rfl)
    obtain ⟨⟨body,timeout⟩,next,base⟩ := s
    rw [DslStep.toJson] at given
    exact wrapped _ _ _ given (lookup_other own)
  | singleFlight s =>
    have own : key ≠ "single_flight" := fun same => other (by rw [same]; rfl)
    obtain ⟨⟨text,ttl,body,result⟩,next,base⟩ := s
    rw [DslStep.toJson] at given
    exact wrapped _ _ _ given (lookup_other own)
  | returnStep s =>
    have own : key ≠ "return" := fun same => other (by rw [same]; rfl)
    rw [DslStep.toJson] at given
    refine wrapped _ _ _ given ?_
    simp only [List.lookup_append,List.cons_append,List.nil_append,List.lookup_nil,lookup_other,
      lookup_optionalMember,apart,if_false,Option.or_none,ne_eq,not_false_eq_true,own]
  | httpMock s =>
    have own : key ≠ "call" := fun same => other (by rw [same]; rfl)
    rw [DslStep.toJson] at given
    refine wrapped _ _ _ given ?_
    simp only [List.lookup_append,List.cons_append,List.nil_append,List.lookup_nil,lookup_other,
      lookup_optionalMember,apart,if_false,Option.or_none,ne_eq,not_false_eq_true,own]
  | template s =>
    have own : key ≠ "template" := fun same => other (by rw [same]; rfl)
    rw [DslStep.toJson] at given
    refine wrapped _ _ _ given ?_
    simp only [List.lookup_append,List.cons_append,List.nil_append,List.lookup_nil,lookup_other,
      lookup_optionalMember,apart,if_false,Option.or_none,ne_eq,not_false_eq_true,own]
  | assign s =>
    have own : key ≠ "assign" := fun same => other (by rw [same]; rfl)
    rw [DslStep.toJson] at given
    exact wrapped _ _ _ given (lookup_other own)
  | switch s =>
    have own : key ≠ "switch" := fun same => other (by rw [same]; rfl)
    rw [DslStep.toJson] at given
    exact wrapped _ _ _ given (lookup_other own)
  | log s =>
    have own : key ≠ "log" := fun same => other (by rw [same]; rfl)
    rw [DslStep.toJson] at given
    exact wrapped _ _ _ given (lookup_other own)
  | state s =>
    have own : key ≠ "state" := fun same => other (by rw [same]; rfl)
    rw [DslStep.toJson] at given
    exact wrapped _ _ _ given (lookup_other own)
  | parallelHttp s =>
    have own : key ≠ "parallel_http" := fun same => other (by rw [same]; rfl)
    rw [DslStep.toJson] at given
    exact wrapped _ _ _ given (lookup_other own)
  | wsSend s =>
    have own : key ≠ "ws_send" := fun same => other (by rw [same]; rfl)
    rw [DslStep.toJson] at given
    exact wrapped _ _ _ given (lookup_other own)
  | wsTag s =>
    have own : key ≠ "ws_tag" := fun same => other (by rw [same]; rfl)
    rw [DslStep.toJson] at given
    exact wrapped _ _ _ given (lookup_other own)

/-- An earlier variant asks for an action key of its own, except that a mocked call has the key of
an HTTP call. -/
theorem earlier_key (u v : Variant) (before : untaggedOrder.idxOf u < untaggedOrder.idxOf v) :
    (∃ key ∈ actionStepKeys, u.actionKey = some key ∧ v.actionKey ≠ some key) ∨ u = .http ∧ v = .httpMock := by
  cases u with
  | declaration =>
    have last : untaggedOrder.idxOf v ≤ 14 := by cases v <;> decide
    exact absurd before (Nat.not_lt.mpr last)
  | http =>
    cases v with
    | httpMock => exact .inr ⟨rfl,rfl⟩
    | http => exact absurd before (Nat.lt_irrefl _)
    | _ => exact .inl ⟨_,by decide,rfl,by decide⟩
  | httpMock =>
    cases v with
    | http => exact absurd before (by decide)
    | httpMock => exact absurd before (Nat.lt_irrefl _)
    | _ => exact .inl ⟨_,by decide,rfl,by decide⟩
  | _ =>
    refine .inl ⟨_,by decide,rfl,?_⟩
    rintro same
    cases v <;> first
      | exact absurd before (Nat.lt_irrefl _)
      | exact absurd same (by decide)

/-- The arguments of a mocked call name no URL. -/
theorem mock_not_http (s : HttpMockStep) :
    (Variant.reader true dslStep .http).read (DslStep.httpMock s).toJson = none := by
  rw [DslStep.toJson]
  refine Reader.read_eq_none.mpr ?_
  rintro ⟨_,same,⟨⟨⟨⟨⟨⟨_,call⟩,args⟩,_⟩,_⟩,_⟩,_⟩,_⟩
  cases same
  obtain ⟨value,found,source,given,fits⟩ := Layout.required_fits.mp args
  have held : value = s.args.toJson := by
    have apart : "args" ∉ controlKeys := by decide
    change (written _ s.next s.base).lookup "args" = some value at found
    rw [lookup_written apart] at found
    simpa [List.lookup_cons] using found.symm
  subst held
  cases given
  have url := httpArgs.present _ fits "url" (by decide)
  simp [List.lookup_append,List.lookup_cons] at url

theorem earlier_fails (step : DslStep) (u : Variant)
    (before : untaggedOrder.idxOf u < untaggedOrder.idxOf step.variant) :
    (u.reader true dslStep).read step.toJson = none := by
  obtain ⟨key,action,needs,other⟩ | ⟨rfl,mock⟩ := earlier_key u step.variant before
  · obtain ⟨members,given⟩ := toJson_object step
    have absent := lookup_action step action other members given
    rw [given]
    refine Reader.read_eq_none.mpr fun fits => ?_
    have present := key_of_fits needs fits
    rw [absent] at present
    cases present
  · cases step with
    | httpMock s => exact mock_not_http s
    | _ => cases mock

theorem read_by_variant {step : DslStep} (own : (step.variant.reader true dslStep).read step.toJson = some step) :
    dslStep.read step.toJson = some step := by
  rw [dslStep_read]
  refine findSome?_iff.mpr ⟨step.variant,?_,own,fun u _ before => earlier_fails step u before⟩
  cases step.variant <;> decide

theorem mapped {r : Reader α} {build : α → DslStep} (read : r.read j = some a) :
    (r.map build).read j = some (build a) := by
  simp only [Reader.map,read,Option.map_some]

mutual

/-- A step that a deserialiser can give is written so that the untagged enum reads it back. -/
theorem read_toJson : (step : DslStep) → step.Canonical → dslStep.read step.toJson = some step
  | .assign s, _ => read_by_variant (mapped (assign_written s))
  | .returnStep s, canonical => read_by_variant (mapped (return_written canonical))
  | .http s, canonical => read_by_variant (mapped (http_written canonical))
  | .httpMock s, canonical => read_by_variant (mapped (httpMock_written canonical))
  | .switch s, _ => read_by_variant (mapped (switch_written s))
  | .log s, _ => read_by_variant (mapped (log_written s))
  | .template s, canonical => read_by_variant (mapped (template_written canonical))
  | .state s, _ => read_by_variant (mapped (state_written s))
  | .iterate ⟨⟨list,itemVar,body,collect,into,most⟩,next,base⟩, canonical => by
    rw [DslStep.Canonical] at canonical
    exact read_by_variant (mapped (iterate_written canonical.1 (read_bodyJson body canonical.2)))
  | .parallelHttp s, canonical => read_by_variant (mapped (parallelHttp_written canonical))
  | .detach ⟨⟨body,timeout⟩,next,base⟩, canonical => by
    rw [DslStep.Canonical] at canonical
    exact read_by_variant (mapped (detach_written (read_bodyJson body canonical)))
  | .wsSend s, canonical => read_by_variant (mapped (wsSend_written canonical))
  | .wsTag s, canonical => read_by_variant (mapped (wsTag_written canonical))
  | .singleFlight ⟨⟨key,ttl,body,result⟩,next,base⟩, canonical => by
    rw [DslStep.Canonical] at canonical
    exact read_by_variant (mapped (singleFlight_written (read_bodyJson body canonical)))
  | .declaration d, canonical => by
    have own : (Reader.flat declarationStep).read (DslStep.declaration d).toJson = some d := by
      rw [DslStep.toJson]
      exact declaration_written canonical
    exact read_by_variant (mapped own)

theorem read_bodyJson : (steps : List DslStep) → bodyCanonical steps →
    ∀ sub ∈ steps, dslStep.read sub.toJson = some sub
  | [], _, _, member => by cases member
  | step :: rest, canonical, sub, member => by
    rw [bodyCanonical] at canonical
    rcases List.mem_cons.mp member with same | later
    · rw [same]
      exact read_toJson step canonical.1
    · exact read_bodyJson rest canonical.2 sub later

end

end Untagged
end Ruuter
