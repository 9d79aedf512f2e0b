import Ruuter.NestedSteps
import Ruuter.StepRoundTrip

/-! Every step of a document comes back. The JSON form of a YAML value has its objects in key order,
and what the deserialisers read from such a value is canonical: no optional field holds `null`, and
the maps that are kept in key order are in key order. -/
namespace Ruuter

namespace Json

mutual

/-- Every object in the value has its members in key order. -/
def Ordered : Json → Prop
  | .array items => OrderedItems items
  | .object members => members.Pairwise (fun a b => a.1 < b.1) ∧ OrderedMembers members
  | .null | .bool _ | .number _ | .string _ => True

def OrderedItems : List Json → Prop
  | [] => True
  | item :: rest => item.Ordered ∧ OrderedItems rest

def OrderedMembers : List (String × Json) → Prop
  | [] => True
  | (_,value) :: rest => value.Ordered ∧ OrderedMembers rest

end

theorem orderedItems_iff {items : List Json} : OrderedItems items ↔ ∀ item ∈ items, item.Ordered := by
  induction items with
  | nil => simp [OrderedItems]
  | cons item rest ih => simp [OrderedItems,ih]

theorem orderedMembers_iff {members : List (String × Json)} :
    OrderedMembers members ↔ ∀ entry ∈ members, entry.2.Ordered := by
  induction members with
  | nil => simp [OrderedMembers]
  | cons entry rest ih => simp [OrderedMembers,ih]

theorem mem_insertMember {entry : String × Json} (member : entry ∈ insertMember key value members) :
    entry = (key,value) ∨ entry ∈ members := by
  induction members with
  | nil => exact .inl (List.mem_singleton.mp member)
  | cons head rest ih =>
    obtain ⟨other,held⟩ := head
    unfold insertMember at member
    split at member
    · exact List.mem_cons.mp member
    · split at member
      · exact (List.mem_cons.mp member).imp_right (List.mem_cons_of_mem _)
      · rcases List.mem_cons.mp member with same | later
        · exact .inr (same ▸ List.mem_cons_self)
        · exact (ih later).imp_right (List.mem_cons_of_mem _)

theorem insertMember_sorted {members : List (String × Json)} (sorted : members.Pairwise fun a b => a.1 < b.1) :
    (insertMember key value members).Pairwise fun a b => a.1 < b.1 := by
  induction members with
  | nil => exact List.pairwise_singleton ..
  | cons head rest ih =>
    obtain ⟨other,held⟩ := head
    obtain ⟨first,later⟩ := List.pairwise_cons.mp sorted
    unfold insertMember
    split
    · rename_i below
      refine List.pairwise_cons.mpr ⟨?_,sorted⟩
      intro entry member
      rcases List.mem_cons.mp member with rfl | inside
      · exact below
      · exact String.lt_trans below (first entry inside)
    · split
      · rename_i same
        subst same
        exact List.pairwise_cons.mpr ⟨first,later⟩
      · rename_i above different
        refine List.pairwise_cons.mpr ⟨?_,ih later⟩
        intro entry member
        rcases mem_insertMember member with rfl | inside
        · by_contra beyond
          exact different (String.le_antisymm (String.not_lt.mp beyond) (String.not_lt.mp above))
        · exact first entry inside

end Json

namespace Yaml
variable (floats : FloatText)

theorem toObject_ordered {object entries : List (String × Json)}
    (sorted : object.Pairwise fun a b => a.1 < b.1) (held : ∀ entry ∈ object, entry.2.Ordered)
    (given : ∀ entry ∈ entries, entry.2.Ordered) : (Json.object (toObject object entries)).Ordered := by
  induction entries generalizing object with
  | nil => exact ⟨sorted,Json.orderedMembers_iff.mpr held⟩
  | cons entry rest ih =>
    refine ih (Json.insertMember_sorted sorted) ?_ fun other member => given other (List.mem_cons_of_mem _ member)
    intro other member
    rcases Json.mem_insertMember member with rfl | inside
    · exact given entry List.mem_cons_self
    · exact held other inside

mutual

theorem toJson_ordered : (value : Yaml) → ∀ j, toJson floats value = some j → j.Ordered
  | .null, _, given => by
    cases given
    trivial
  | .nonFinite, _, given => by
    cases given
    trivial
  | .bool b, _, given => by
    cases given
    trivial
  | .number n, _, given => by
    cases given
    trivial
  | .string text, _, given => by
    cases given
    trivial
  | .sequence items, _, given => by
    rw [toJson,Option.map_eq_some_iff] at given
    obtain ⟨converted,each,rfl⟩ := given
    exact Json.orderedItems_iff.mpr (toJsonList_ordered items converted each)
  | .mapping members, _, given => by
    rw [toJson,Option.map_eq_some_iff] at given
    obtain ⟨entries,each,rfl⟩ := given
    exact toObject_ordered .nil (by simp) (toJsonMembers_ordered members entries each)
  | .tagged tag value, _, given => by
    rw [toJson,Option.map_eq_some_iff] at given
    obtain ⟨j,inner,rfl⟩ := given
    exact ⟨List.pairwise_singleton ..,toJson_ordered value j inner,trivial⟩

theorem toJsonList_ordered : (items : List Yaml) → ∀ converted, toJsonList floats items = some converted →
    ∀ j ∈ converted, j.Ordered
  | [], _, given, j, member => by
    cases given
    cases member
  | item :: rest, _, given, j, member => by
    simp only [toJsonList,Option.bind_eq_some_iff,Option.map_eq_some_iff] at given
    obtain ⟨first,read,others,later,rfl⟩ := given
    rcases List.mem_cons.mp member with rfl | inside
    · exact toJson_ordered item _ read
    · exact toJsonList_ordered rest others later j inside

theorem toJsonMembers_ordered :
    (members : List (Yaml × Yaml)) → ∀ entries, toJsonMembers floats members = some entries →
    ∀ entry ∈ entries, entry.2.Ordered
  | [], _, given, entry, member => by
    cases given
    cases member
  | (key,value) :: rest, _, given, entry, member => by
    simp only [toJsonMembers,Option.bind_eq_some_iff,Option.map_eq_some_iff] at given
    obtain ⟨k,_,first,read,others,later,rfl⟩ := given
    rcases List.mem_cons.mp member with rfl | inside
    · exact toJson_ordered value _ read
    · exact toJsonMembers_ordered rest others later entry inside

end

end Yaml

section Fields

theorem nullable_any_read (given : Reader.any.nullable.read j = some value) : NotNull value := by
  intro held same
  subst same
  cases j with
  | null => cases given
  | _ =>
    cases given
    exact nofun

theorem field_any_read {s : Source} (missing : absent s.positional = some value → NotNull value)
    (given : (Layout.field name [] absent Reader.any.nullable).read s = some value) : NotNull value := by
  simp only [Layout.field] at given
  split at given
  · exact missing given
  · exact nullable_any_read given
  · cases given

/-- An optional field of type `Value` is read as absent or as a value other than `null`. -/
theorem optional_any_read {s : Source} (given : (Layout.optional name Reader.any).read s = some value) :
    NotNull value := by
  refine field_any_read (fun missing => ?_) given
  split at missing
  · cases missing
  · cases missing
    exact nofun

theorem defaultedNone_any_read {s : Source} (given : (Layout.defaultedNone name Reader.any).read s = some value) :
    NotNull value := by
  have field : (Layout.field name [] (fun _ => some none) Reader.any.nullable).read s = some value := given
  refine field_any_read (fun missing => ?_) field
  cases missing
  exact nofun

theorem nullable_read_some {r : Reader α} (given : r.nullable.read j = some (some a)) : r.read j = some a := by
  cases j with
  | null => cases given
  | _ =>
    obtain ⟨held,read,same⟩ := Option.map_eq_some_iff.mp given
    cases same
    exact read

/-- A value that an optional field holds is read from one of the members. -/
theorem field_read_some {r : Reader α} {s : Source} (missing : absent s.positional ≠ some (some a))
    (given : (Layout.field name aliases absent r.nullable).read s = some (some a)) :
    ∃ entry ∈ s.members, r.read entry.2 = some a := by
  simp only [Layout.field] at given
  split at given
  · exact absurd given missing
  · rename_i j single
    have member : j ∈ s.values (name :: aliases) := by rw [single]; exact List.mem_singleton_self j
    obtain ⟨key,_,found⟩ := List.mem_filterMap.mp member
    exact ⟨_,mem_of_lookup found,nullable_read_some given⟩
  · cases given

theorem optional_read_some {r : Reader α} {s : Source} (given : (Layout.optional name r).read s = some (some a)) :
    ∃ entry ∈ s.members, r.read entry.2 = some a := by
  refine field_read_some ?_ given
  split <;> nofun

theorem defaultedNone_read_some {r : Reader α} {s : Source}
    (given : (Layout.defaultedNone name r aliases).read s = some (some a)) :
    ∃ entry ∈ s.members, r.read entry.2 = some a := by
  have field : (Layout.field name aliases (fun _ => some none) r.nullable).read s = some (some a) := given
  exact field_read_some (by simp) field

theorem required_struct_read {record : Layout α} {s : Source}
    (given : (Layout.required name (Reader.struct record)).read s = some a) :
    ∃ j source, (name,j) ∈ s.members ∧ Source.ofJson record.fields j = some source ∧ record.read source = some a := by
  obtain ⟨j,found,read⟩ := Layout.required_read.mp given
  obtain ⟨source,made,inner⟩ := Option.bind_eq_some_iff.mp read
  exact ⟨j,source,mem_of_lookup found,made,inner⟩

end Fields

section Records

theorem httpArgs_canonical {s : Source} (given : httpArgs.read s = some args) : args.Canonical := by
  simp only [httpArgs,Layout.ap_read] at given
  obtain ⟨_,⟨_,⟨_,⟨_,⟨_,built,url,_,rfl⟩,body,bodyRead,rfl⟩,query,queryRead,rfl⟩,headers,headersRead,rfl⟩,
    _,_,rfl⟩ := given
  cases built
  exact ⟨optional_any_read bodyRead,optional_any_read queryRead,optional_any_read headersRead⟩

theorem returnStep_canonical {s : Source} (given : returnStep.read s = some step) :
    NotNull step.status ∧ NotNull step.headers := by
  simp only [returnStep,Layout.ap_read] at given
  obtain ⟨_,⟨_,⟨_,⟨_,⟨_,⟨_,built,_,_,rfl⟩,status,statusRead,rfl⟩,headers,headersRead,rfl⟩,_,_,rfl⟩,_,_,rfl⟩,
    _,_,rfl⟩ := given
  cases built
  exact ⟨optional_any_read statusRead,optional_any_read headersRead⟩

theorem httpStep_canonical {s : Source} (given : httpStep.read s = some step) : step.args.Canonical := by
  simp only [httpStep,Layout.ap_read] at given
  obtain ⟨_,⟨_,⟨_,⟨_,⟨_,⟨_,⟨_,built,_,_,rfl⟩,args,argsRead,rfl⟩,
    _,_,rfl⟩,_,_,rfl⟩,_,_,rfl⟩,_,_,rfl⟩,_,_,rfl⟩ := given
  cases built
  obtain ⟨j,source,_,_,read⟩ := required_struct_read argsRead
  exact httpArgs_canonical read

theorem httpMockStep_canonical {s : Source} (given : httpMockStep.read s = some step) : NotNull step.args.request := by
  simp only [httpMockStep,Layout.ap_read] at given
  obtain ⟨_,⟨_,⟨_,⟨_,⟨_,built,_,_,rfl⟩,args,argsRead,rfl⟩,_,_,rfl⟩,_,_,rfl⟩,_,_,rfl⟩ := given
  cases built
  obtain ⟨j,source,_,_,read⟩ := required_struct_read argsRead
  simp only [httpMockArgs,Layout.ap_read] at read
  obtain ⟨_,⟨_,⟨_,built,request,requestRead,rfl⟩,_,_,rfl⟩,_,_,rfl⟩ := read
  cases built
  exact defaultedNone_any_read requestRead

theorem templateStep_canonical {s : Source} (given : templateStep.read s = some step) :
    NotNull step.body ∧ NotNull step.query ∧ NotNull step.headers := by
  simp only [templateStep,Layout.ap_read] at given
  obtain ⟨_,⟨_,⟨_,⟨_,⟨_,⟨_,⟨_,⟨_,built,_,_,rfl⟩,_,_,rfl⟩,_,_,rfl⟩,body,bodyRead,rfl⟩,query,queryRead,rfl⟩,
    headers,headersRead,rfl⟩,_,_,rfl⟩,_,_,rfl⟩ :=
    given
  cases built
  exact ⟨optional_any_read bodyRead,optional_any_read queryRead,optional_any_read headersRead⟩

theorem parallelHttpStep_canonical {s : Source} (given : parallelHttpStep.read s = some step) :
    step.parallelHttp.args.Canonical := by
  simp only [parallelHttpStep,Layout.ap_read] at given
  obtain ⟨_,⟨_,⟨_,built,body,bodyRead,rfl⟩,_,_,rfl⟩,_,_,rfl⟩ := given
  cases built
  obtain ⟨j,source,_,_,read⟩ := required_struct_read bodyRead
  simp only [parallelHttpBody,Layout.ap_read] at read
  obtain ⟨_,⟨_,⟨_,⟨_,⟨_,⟨_,⟨_,⟨_,⟨_,⟨_,built,_,_,rfl⟩,_,_,rfl⟩,args,argsRead,rfl⟩,
    _,_,rfl⟩,_,_,rfl⟩,_,_,rfl⟩,
    _,_,rfl⟩,_,_,rfl⟩,_,_,rfl⟩,_,_,rfl⟩ :=
    read
  cases built
  obtain ⟨_,_,_,_,inner⟩ := required_struct_read argsRead
  exact httpArgs_canonical inner

theorem wsSendStep_canonical {s : Source} (given : wsSendStep.read s = some step) : step.wsSend.Canonical := by
  simp only [wsSendStep,Layout.ap_read] at given
  obtain ⟨_,⟨_,⟨_,built,args,argsRead,rfl⟩,_,_,rfl⟩,_,_,rfl⟩ := given
  cases built
  obtain ⟨j,source,_,_,read⟩ := required_struct_read argsRead
  simp only [wsSendArgs,Layout.ap_read] at read
  obtain ⟨_,⟨_,⟨_,⟨_,built,target,targetRead,rfl⟩,_,_,rfl⟩,_,_,rfl⟩,bw,bwRead,rfl⟩ := read
  cases built
  refine ⟨optional_any_read targetRead,?_⟩
  rintro found rfl
  obtain ⟨entry,_,inner⟩ := optional_read_some bwRead
  obtain ⟨fields,_,inner⟩ := Option.bind_eq_some_iff.mp inner
  simp only [broadcastWhere,Layout.ap_read] at inner
  obtain ⟨_,⟨_,⟨_,built,_,_,rfl⟩,equals,equalsRead,rfl⟩,contains,containsRead,rfl⟩ := inner
  cases built
  exact ⟨defaultedNone_any_read equalsRead,defaultedNone_any_read containsRead⟩

/-- The entries of a map are read in the order of the object they are read from. -/
theorem mapping_sorted (ordered : j.Ordered) (given : Reader.mapping.read j = some map) :
    map.entries.Pairwise fun a b => a.1 < b.1 := by
  cases j with
  | object members =>
    cases given
    have sorted : (members.map fun member => (⟨member.1,member.2⟩ : Sigma fun _ : String => Json)).Pairwise
        fun a b => a.1 < b.1 := List.pairwise_map.mpr ordered.1
    have distinct : (members.map fun member => (⟨member.1,member.2⟩ : Sigma fun _ : String => Json)).NodupKeys := by
      refine List.pairwise_map.mpr (sorted.imp fun below same => ?_)
      rw [same] at below
      exact String.lt_irrefl _ below
    rw [toAList_entries distinct]
    exact sorted
  | _ => cases given

theorem ofJson_ordered (given : Source.ofJson fields j = some s) (ordered : j.Ordered) :
    ∀ entry ∈ s.members, entry.2.Ordered := by
  intro entry member
  cases j with
  | object members =>
    cases given
    exact Json.orderedMembers_iff.mp ordered.2 entry member
  | array items =>
    simp only [Source.ofJson] at given
    split at given
    · cases given
      exact Json.orderedItems_iff.mp ordered _ (List.of_mem_zip member).2
    · cases given
  | _ => cases given

theorem wsTagStep_canonical {s : Source} (ordered : ∀ entry ∈ s.members, entry.2.Ordered)
    (given : wsTagStep.read s = some step) : step.wsTag.Canonical := by
  simp only [wsTagStep,Layout.ap_read] at given
  obtain ⟨_,⟨_,⟨_,built,args,argsRead,rfl⟩,_,_,rfl⟩,_,_,rfl⟩ := given
  cases built
  obtain ⟨j,source,member,made,read⟩ := required_struct_read argsRead
  simp only [wsTagArgs,Layout.ap_read] at read
  obtain ⟨_,built,map,mapRead,rfl⟩ := read
  cases built
  obtain ⟨body,found,inner⟩ := Layout.required_read.mp mapRead
  exact mapping_sorted (ofJson_ordered made (ordered _ member) _ (mem_of_lookup found)) inner

theorem dslField_canonical (n : Nat) : ∀ j f, j.depth < n → dslField.read j = some f → f.Canonical := by
  induction n with
  | zero =>
    intro j f below
    exact absurd below (Nat.not_lt_zero _)
  | succ n ih =>
    intro j f below given
    rw [dslField_unfold] at given
    obtain ⟨source,made,read⟩ := Option.bind_eq_some_iff.mp given
    simp only [dslFieldOf,Layout.ap_read] at read
    obtain ⟨_,⟨_,⟨_,⟨_,⟨_,⟨_,⟨_,built,_,_,rfl⟩,_,_,rfl⟩,_,_,rfl⟩,_,_,rfl⟩,_,_,rfl⟩,default,defaultRead,rfl⟩,
      items,itemsRead,rfl⟩ :=
      read
    cases built
    have plain := defaultedNone_any_read defaultRead
    cases items with
    | none => exact plain
    | some item =>
      obtain ⟨entry,member,inner⟩ := defaultedNone_read_some itemsRead
      exact ⟨plain,ih entry.2 item (Reader.ofJson_below made below entry member) inner⟩

theorem dslFields_canonical (given : (Reader.list dslField).read j = some fields) : ∀ f ∈ fields, f.Canonical := by
  intro f member
  cases j with
  | array items =>
    obtain ⟨item,_,read⟩ := (Reader.mem_mapM given).2 f member
    exact dslField_canonical _ item f (Nat.lt_succ_self _) read
  | _ => cases given

theorem allowlist_canonical {s : Source} (given : allowlist.read s = some a) : a.Canonical := by
  simp only [allowlist,Layout.ap_read] at given
  obtain ⟨_,⟨_,⟨_,⟨_,built,body,bodyRead,rfl⟩,headers,headersRead,rfl⟩,params,paramsRead,rfl⟩,_,_,rfl⟩ := given
  cases built
  constructor
  · rintro fields rfl
    obtain ⟨_,_,read⟩ := defaultedNone_read_some bodyRead
    exact dslFields_canonical read
  · rintro fields rfl
    obtain ⟨_,_,read⟩ := defaultedNone_read_some headersRead
    exact dslFields_canonical read
  · rintro fields rfl
    obtain ⟨_,_,read⟩ := defaultedNone_read_some paramsRead
    exact dslFields_canonical read

theorem declarationStep_canonical {s : Source} (given : declarationStep.read s = some d) : d.Canonical := by
  simp only [declarationStep,Layout.ap_read] at given
  obtain ⟨_,⟨_,⟨_,⟨_,⟨_,⟨_,⟨_,⟨_,⟨_,⟨_,⟨_,⟨_,⟨_,⟨_,built,_,_,rfl⟩,_,_,rfl⟩,_,_,rfl⟩,_,_,rfl⟩,
    _,_,rfl⟩,_,_,rfl⟩,allowed,allowedRead,rfl⟩,
    returned,returnedRead,rfl⟩,_,_,rfl⟩,_,_,rfl⟩,_,_,rfl⟩,_,_,rfl⟩,_,_,rfl⟩,_,_,rfl⟩ := given
  cases built
  constructor
  · rintro a rfl
    obtain ⟨_,_,read⟩ := optional_read_some allowedRead
    obtain ⟨_,_,inner⟩ := Option.bind_eq_some_iff.mp read
    exact allowlist_canonical inner
  · rintro fields rfl
    obtain ⟨_,_,read⟩ := defaultedNone_read_some returnedRead
    exact dslFields_canonical read

end Records

section Steps

/-- The steps of a `do:` block are read from values below the block. -/
theorem block_canonical {s : Source} (below : ∀ entry ∈ s.members, entry.2.depth < n)
    (ordered : ∀ entry ∈ s.members, entry.2.Ordered)
    (nested : ∀ j step, j.depth < n → j.Ordered → dslStep.read j = some step → step.Canonical)
    (given : (Layout.required "do" (Reader.list dslStep)).read s = some body) : bodyCanonical body := by
  obtain ⟨j,found,read⟩ := Layout.required_read.mp given
  have member := mem_of_lookup found
  cases j with
  | array items =>
    have each : ∀ sub ∈ body, sub.Canonical := by
      intro sub inside
      obtain ⟨item,listed,held⟩ := (Reader.mem_mapM read).2 sub inside
      have deep := Json.depth_le_depthList listed
      have lower := below _ member
      simp only [Json.depth] at lower
      exact nested item sub (by omega) (Json.orderedItems_iff.mp (ordered _ member) item listed) held
    clear read given
    induction body with
    | nil => trivial
    | cons sub rest ih =>
      exact ⟨each sub List.mem_cons_self,ih fun other inside => each other (List.mem_cons_of_mem _ inside)⟩
  | _ => cases read

/-- What a variant reads is canonical when the steps it nests are. -/
theorem variant_canonical {v : Variant} (depth : j.depth ≤ n) (ordered : j.Ordered)
    (nested : ∀ j step, j.depth < n → j.Ordered → dslStep.read j = some step → step.Canonical)
    (given : (v.reader buffered dslStep).read j = some step) : step.Canonical := by
  obtain ⟨members,rfl⟩ : ∃ members, j = .object members := by
    cases j with
    | object members => exact ⟨members,rfl⟩
    | _ => cases v <;> cases given
  have below : ∀ entry ∈ members, entry.2.depth < n := by
    intro entry member
    have le : entry.2.depth ≤ Json.depthMembers members := Json.depth_le_depthMembers member
    simp only [Json.depth] at depth
    omega
  have held : ∀ entry ∈ members, entry.2.Ordered := Json.orderedMembers_iff.mp ordered.2
  have inner : ∀ name j (source : Source) fields, (name,j) ∈ members → Source.ofJson fields j = some source →
      (∀ entry ∈ source.members, entry.2.depth < n) ∧ ∀ entry ∈ source.members, entry.2.Ordered := by
    intro name j source fields member made
    refine ⟨fun entry inside => ?_,ofJson_ordered made (held _ member)⟩
    have lower := Reader.ofJson_below made (Nat.lt_succ_self _) entry inside
    exact Nat.lt_trans lower (below _ member)
  cases v with
  | assign | switch | log | state =>
    obtain ⟨s,_,rfl⟩ := Option.map_eq_some_iff.mp given
    trivial
  | returnStep =>
    obtain ⟨s,read,rfl⟩ := Option.map_eq_some_iff.mp given
    exact returnStep_canonical read
  | http =>
    obtain ⟨s,read,rfl⟩ := Option.map_eq_some_iff.mp given
    exact httpStep_canonical read
  | httpMock =>
    obtain ⟨s,read,rfl⟩ := Option.map_eq_some_iff.mp given
    exact httpMockStep_canonical read
  | template =>
    obtain ⟨s,read,rfl⟩ := Option.map_eq_some_iff.mp given
    exact templateStep_canonical read
  | parallelHttp =>
    obtain ⟨s,read,rfl⟩ := Option.map_eq_some_iff.mp given
    exact parallelHttpStep_canonical read
  | wsSend =>
    obtain ⟨s,read,rfl⟩ := Option.map_eq_some_iff.mp given
    exact wsSendStep_canonical read
  | wsTag =>
    obtain ⟨s,read,rfl⟩ := Option.map_eq_some_iff.mp given
    exact wsTagStep_canonical held read
  | declaration =>
    obtain ⟨s,read,rfl⟩ := Option.map_eq_some_iff.mp given
    exact declarationStep_canonical read
  | iterate =>
    obtain ⟨s,read,rfl⟩ := Option.map_eq_some_iff.mp given
    have whole : (iterateStep dslStep).read { members } = some s := read
    simp only [iterateStep,Layout.ap_read] at whole
    obtain ⟨_,⟨_,⟨_,built,b,bodyRead,rfl⟩,_,_,rfl⟩,_,_,rfl⟩ := whole
    cases built
    obtain ⟨j,source,member,made,fields⟩ := required_struct_read bodyRead
    obtain ⟨lower,sorted⟩ := inner _ _ _ _ member made
    simp only [iterateBody,Layout.ap_read] at fields
    obtain ⟨_,⟨_,⟨_,⟨_,⟨_,⟨_,built,_,_,rfl⟩,_,_,rfl⟩,body,block,rfl⟩,collect,collectRead,rfl⟩,
      _,_,rfl⟩,_,_,rfl⟩ := fields
    cases built
    exact ⟨optional_any_read collectRead,block_canonical lower sorted nested block⟩
  | detach =>
    obtain ⟨s,read,rfl⟩ := Option.map_eq_some_iff.mp given
    have whole : (detachStep dslStep).read { members } = some s := read
    simp only [detachStep,Layout.ap_read] at whole
    obtain ⟨_,⟨_,⟨_,built,b,bodyRead,rfl⟩,_,_,rfl⟩,_,_,rfl⟩ := whole
    cases built
    obtain ⟨j,source,member,made,fields⟩ := required_struct_read bodyRead
    obtain ⟨lower,sorted⟩ := inner _ _ _ _ member made
    simp only [detachBody,Layout.ap_read] at fields
    obtain ⟨_,⟨_,built,body,block,rfl⟩,_,_,rfl⟩ := fields
    cases built
    exact block_canonical lower sorted nested block
  | singleFlight =>
    obtain ⟨s,read,rfl⟩ := Option.map_eq_some_iff.mp given
    have whole : (singleFlightStep dslStep).read { members } = some s := read
    simp only [singleFlightStep,Layout.ap_read] at whole
    obtain ⟨_,⟨_,⟨_,built,b,bodyRead,rfl⟩,_,_,rfl⟩,_,_,rfl⟩ := whole
    cases built
    obtain ⟨j,source,member,made,fields⟩ := required_struct_read bodyRead
    obtain ⟨lower,sorted⟩ := inner _ _ _ _ member made
    simp only [singleFlightBody,Layout.ap_read] at fields
    obtain ⟨_,⟨_,⟨_,⟨_,built,_,_,rfl⟩,_,_,rfl⟩,body,block,rfl⟩,_,_,rfl⟩ := fields
    cases built
    exact block_canonical lower sorted nested block

theorem dslStep_canonical (n : Nat) :
    ∀ j step, j.depth < n → j.Ordered → dslStep.read j = some step → step.Canonical := by
  induction n with
  | zero =>
    intro j step below
    exact absurd below (Nat.not_lt_zero _)
  | succ n ih =>
    intro j step below ordered given
    rw [dslStep_read] at given
    obtain ⟨v,_,read⟩ := List.exists_of_findSome?_eq_some given
    exact variant_canonical (Nat.lt_succ_iff.mp below) ordered ih read

/-- The steps in the `do:` blocks of a step, at any depth. -/
inductive DslStep.Holds : DslStep → DslStep → Prop
  | self : Holds step step
  | iterate (member : sub ∈ IterateBody.body s.iterate) (inside : Holds sub step) : Holds (.iterate s) step
  | detach (member : sub ∈ DetachBody.body s.detach) (inside : Holds sub step) : Holds (.detach s) step
  | singleFlight (member : sub ∈ SingleFlightBody.body s.singleFlight) (inside : Holds sub step) :
    Holds (.singleFlight s) step

theorem bodyCanonical_mem {steps : List DslStep} (canonical : bodyCanonical steps) (member : sub ∈ steps) :
    sub.Canonical := by
  induction steps with
  | nil => cases member
  | cons step rest ih =>
    rw [bodyCanonical] at canonical
    rcases List.mem_cons.mp member with rfl | later
    · exact canonical.1
    · exact ih canonical.2 later

theorem DslStep.Holds.canonical (inside : DslStep.Holds whole step) (canonical : whole.Canonical) :
    step.Canonical := by
  induction inside with
  | self => exact canonical
  | iterate member _ ih => exact ih (bodyCanonical_mem canonical.2 member)
  | detach member _ ih => exact ih (bodyCanonical_mem canonical member)
  | singleFlight member _ ih => exact ih (bodyCanonical_mem canonical member)

/-- A step that the parser accepted, and every step nested in it, is written to JSON that the
deserialiser reads as that step. -/
theorem accepted_step_reads_back (serde : Serde) (parsed : parseStep serde name value = .ok whole)
    (inside : whole.Holds step) : dslStep.read step.toJson = some step := by
  cases value with
  | mapping m =>
    obtain ⟨v,json,_,converted,read,_⟩ := parseStep_iff.mp parsed
    have ordered : json.Ordered := Yaml.toJson_ordered _ _ _ converted
    have canonical : whole.Canonical :=
      variant_canonical (Nat.le_refl _) ordered (fun j step _ => dslStep_canonical (j.depth + 1) j step (Nat.lt_succ_self _)) read
    exact read_toJson step (inside.canonical canonical)
  | _ => cases parsed

theorem zero_numeric (_ : Rat) : ∃ c rest, "0.0".toList = c :: rest ∧ (c.isDigit = true ∨ c = '-') :=
  ⟨'0',['.','0'],rfl,.inl rfl⟩

def plainSerde : Serde where
  text := fun _ => "0.0"
  numeric := zero_numeric
  yaml := fun _ => .error "no document"
  debug := fun _ => "Mapping"
  keyError := fun _ => "key must be a string"
  readError := fun _ => "invalid type"

/-- A mocked call, with a `null` for its optional request, in the block of an `iterate`. -/
def mockedMapping : Yaml :=
  .mapping [(.string "call",.string "reflect.mock"),
    (.string "args",.mapping [(.string "response",.null),(.string "request",.null)])]

def loopMapping : Yaml :=
  .mapping [(.string "iterate",.mapping [(.string "over",.sequence []),(.string "as",.string "item"),
    (.string "do",.sequence [mockedMapping])])]

def mockedStep : DslStep := .httpMock { call := "reflect.mock", args := { response := .null } }

theorem accepted_step_reads_back_mock :
    (parseStep plainSerde "loop" loopMapping).toOption.isSome = true ∧
      dslStep.read mockedStep.toJson = some mockedStep := by
  have parsed : parseStep plainSerde "loop" loopMapping =
      .ok (.iterate { iterate := { «over» := .array [], itemVar := "item", body := [mockedStep] } }) := rfl
  exact ⟨by rw [parsed]; rfl,
    accepted_step_reads_back plainSerde parsed (.iterate List.mem_cons_self .self)⟩

end Steps
end Ruuter
