import Ruuter.DeclarationDemands
import Ruuter.Parser

/-! The contract of `apply_declaration` for every declaration, legacy lists included: which requests
it accepts (`Accepts`), the view it returns (`returned`), and when that view meets the declaration. -/
namespace Ruuter
open Eff OpenApi

/-- The sections of a request. -/
inductive Section
  | body | params | headers
deriving DecidableEq

/-- The name that the framework puts into a section. -/
def Section.injected : Section → Option String
  | .body => none
  | .params => some "pathParams"
  | .headers => some "traceparent"

/-- The request has a name in a section. -/
def RequestView.Has (view : RequestView) : Section → String → Prop
  | .body, name => name ∈ view.body
  | .params, name => name ∈ view.query
  | .headers, name => name ∈ view.headers

namespace DeclarationStep

/-- The effective allowlist of a section. -/
def allowed (decl : DeclarationStep) : Section → Option (List String)
  | .body => decl.effectiveAllowedBody
  | .params => decl.effectiveAllowedParams
  | .headers => decl.effectiveAllowedHeader

/-- The `required_one_of` groups of a section. -/
def oneOf (decl : DeclarationStep) (part : Section) : List (List String) :=
  match decl.allowlist.bind (·.requiredOneOf) with
  | none => []
  | some oneOf =>
    match part with
    | .body => oneOf.body.getD []
    | .params => oneOf.params.getD []
    | .headers => oneOf.headers.getD []

/-- The names that must be there: in the body of a POST, in the query of a GET with a list of params. -/
def requires (decl : DeclarationStep) : List String :=
  match decl.effectiveAllowedBody with
  | none => []
  | some allow => requiredBodyFieldNames decl allow

/-- Without a filter a section keeps every name. -/
def unfiltered (decl : DeclarationStep) : Bool := decl.isStrict || decl.isAdditive

end DeclarationStep

section Views
variable (decl : DeclarationStep) (view : RequestView)

/-- A section does not drop a name. -/
def Stays (part : Section) (name : String) : Prop :=
  decl.unfiltered = true ∨ part.injected = some name ∨ ∀ names, decl.allowed part = some names → name ∈ names

/-- A name is in a section of the view that is returned: it came and stays, or it is injected. -/
def Leaves (part : Section) (name : String) : Prop :=
  (view.Has part name ∧ Stays decl part name) ∨
    (part = .headers ∧ name = "traceparent" ∧ (decl.allowed part).isSome = true)

/-- The request passes the checks of the declaration. The groups of the params and the headers look
at the request as it came. -/
structure Accepts (method : String) : Prop where
  known : decl.isStrict = true → ∀ part names, decl.allowed part = some names →
    ∀ name, view.Has part name → name ∈ names ∨ part.injected = some name
  post : method = "POST" → ∀ name ∈ decl.requires, view.Has .body name ∧ Stays decl .body name
  types : ∀ field ∈ decl.structuredBody.getD [], ∀ declared value, field.fieldType = some declared →
    view.body.lookup field.field = some value → Stays decl .body field.field →
    value.isNull = true ∨ hasFieldType declared value = true
  body : ∀ group ∈ decl.oneOf .body, ∃ name ∈ group, view.Has .body name ∧ Stays decl .body name
  incoming : ∀ part, part ≠ .body → ∀ group ∈ decl.oneOf part, ∃ name ∈ group, view.Has part name
  get : method = "GET" → (decl.allowed .params).isSome = true →
    ∀ name ∈ decl.requires, view.Has .params name ∧ Stays decl .params name

/-- What a section keeps of a map. -/
def keptIn (allow : Option (List String)) (map : StringMap α) : StringMap α :=
  match allow with
  | none => map
  | some names => if decl.unfiltered then map else filterStrKeyed map names

/-- The view that an accepted request leaves. -/
def returned (traceparent : String) : RequestView where
  body := keptIn decl (decl.allowed .body) view.body
  query :=
    match decl.allowed .params with
    | none => view.query
    | some names =>
      let kept := keptIn decl (some names) (view.query.erase "pathParams")
      match view.query.lookup "pathParams" with
      | some saved => kept.insert "pathParams" saved
      | none => kept
  headers :=
    match decl.allowed .headers with
    | none => view.headers
    | some names =>
      let kept := keptIn decl (some names) view.headers
      if "traceparent" ∈ kept then kept else kept.insert "traceparent" traceparent

end Views

section Maps
variable {decl : DeclarationStep}

theorem lookup_filter (map : StringMap α) (names : List String) (name : String) :
    (filterStrKeyed map names).lookup name = if name ∈ names then map.lookup name else none := by
  by_cases listed : name ∈ names
  · rw [if_pos listed]
    refine Option.ext fun value => ?_
    have first := AList.mem_lookup_iff (s := filterStrKeyed map names) (a := name) (b := value)
    have second := AList.mem_lookup_iff (s := map) (a := name) (b := value)
    rw [Option.mem_def] at first second
    rw [first,second]
    simp [filterStrKeyed,listed]
  · rw [if_neg listed,AList.lookup_eq_none]
    exact fun member => listed (mem_filterStrKeyed.mp member).2

/-- An allowlist keeps a name. -/
def KeptBy (decl : DeclarationStep) (allow : Option (List String)) (name : String) : Prop :=
  decl.unfiltered = true ∨ ∀ names, allow = some names → name ∈ names

/-- What is kept: all of it, or what a list names. -/
theorem keptIn_cases (decl : DeclarationStep) (allow : Option (List String)) (map : StringMap α) :
    keptIn decl allow map = map ∨
      ∃ names, allow = some names ∧ decl.unfiltered ≠ true ∧ keptIn decl allow map = filterStrKeyed map names := by
  unfold keptIn
  cases allow with
  | none => exact .inl rfl
  | some names =>
    by_cases loose : decl.unfiltered = true
    · exact .inl (by simp only [loose,if_true])
    · exact .inr ⟨names,rfl,loose,by simp only [loose,Bool.false_eq_true,if_false]⟩

theorem lookup_keptIn {allow : Option (List String)} (map : StringMap α) (kept : KeptBy decl allow name) :
    (keptIn decl allow map).lookup name = map.lookup name := by
  obtain same | ⟨names,rfl,strict,filtered⟩ := keptIn_cases decl allow map
  · rw [same]
  · rw [filtered,lookup_filter,if_pos (kept.resolve_left strict names rfl)]

theorem mem_keptIn {allow : Option (List String)} {map : StringMap α} :
    name ∈ keptIn decl allow map ↔ name ∈ map ∧ KeptBy decl allow name := by
  unfold keptIn KeptBy
  cases allow with
  | none => simp
  | some names =>
    cases loose : decl.unfiltered with
    | true => simp
    | false => simp [mem_filterStrKeyed]

/-- Every entry that is kept has its value. -/
theorem lookup_of_keptIn {allow : Option (List String)} {map : StringMap α} {value : α}
    (found : (keptIn decl allow map).lookup name = some value) : map.lookup name = some value := by
  have member : name ∈ keptIn decl allow map := AList.lookup_isSome.mp (by rw [found]; rfl)
  rw [← lookup_keptIn map (mem_keptIn.mp member).2]
  exact found

theorem keptIn_of_forall {allow : Option (List String)} {map : StringMap α}
    (all : ∀ name ∈ map, KeptBy decl allow name) : keptIn decl allow map = map := by
  obtain same | ⟨names,rfl,strict,filtered⟩ := keptIn_cases decl allow map
  · exact same
  · rw [filtered]
    apply AList.ext
    apply List.filter_eq_self.mpr
    intro entry member
    have inside : entry.1 ∈ map := AList.mem_keys.mpr (List.mem_map_of_mem member)
    exact List.contains_iff_mem.mpr ((all entry.1 inside).resolve_left strict names rfl)

theorem keptIn_keptIn (allow : Option (List String)) (map : StringMap α) :
    keptIn decl allow (keptIn decl allow map) = keptIn decl allow map :=
  keptIn_of_forall fun _ member => (mem_keptIn.mp member).2

theorem erase_of_notMem {map : StringMap α} (absent : name ∉ map) : map.erase name = map :=
  AList.ext (List.kerase_of_notMem_keys absent)

theorem erase_insert {map : StringMap α} (absent : name ∉ map) (value : α) :
    (map.insert name value).erase name = map := by
  apply AList.ext
  show List.kerase name (map.insert name value).entries = map.entries
  rw [AList.entries_insert_of_notMem absent]
  exact List.kerase_cons_eq rfl

/-- A filter that keeps all but one entry at the front. -/
theorem keptIn_insert {allow : Option (List String)} {map : StringMap α} (absent : name ∉ map)
    (all : ∀ other ∈ map, KeptBy decl allow other) (value : α) :
    keptIn decl allow (map.insert name value) = map.insert name value ∨
      keptIn decl allow (map.insert name value) = map := by
  by_cases kept : KeptBy decl allow name
  · left
    apply keptIn_of_forall
    intro other member
    rcases (AList.mem_insert map).mp member with rfl | inside
    · exact kept
    · exact all other inside
  · right
    have same := keptIn_of_forall all
    unfold KeptBy at kept
    unfold keptIn at same ⊢
    cases allow with
    | none => exact absurd (.inr fun _ none => by cases none) kept
    | some names =>
      have filtered : ¬ decl.unfiltered = true := fun loose => kept (.inl loose)
      have unlisted : name ∉ names := fun listed => kept (.inr fun _ same => Option.some.inj same ▸ listed)
      simp only [filtered,Bool.false_eq_true,if_false] at same ⊢
      apply AList.ext
      have entries := congrArg AList.entries same
      simp only [filterStrKeyed] at entries ⊢
      rw [AList.entries_insert_of_notMem absent,List.filter_cons_of_neg (by simpa using unlisted),entries]

end Maps

section Returned
variable (decl : DeclarationStep) (view : RequestView) (traceparent : String)

theorem stays_body : Stays decl .body name ↔ KeptBy decl decl.effectiveAllowedBody name := by
  simp [Stays,KeptBy,Section.injected,DeclarationStep.allowed]

theorem lookup_query (stays : Stays decl .params name) :
    (returned decl view traceparent).query.lookup name = view.query.lookup name := by
  unfold returned
  simp only
  cases shape : decl.allowed .params with
  | none => rfl
  | some names =>
    simp only
    by_cases injected : name = "pathParams"
    · subst injected
      cases found : view.query.lookup "pathParams" with
      | some saved => exact AList.lookup_insert _
      | none =>
        refine AList.lookup_eq_none.mpr fun member => ?_
        exact (AList.mem_erase.mp (mem_keptIn.mp member).1).1 rfl
    · have kept : KeptBy decl (some names) name := by
        rcases stays with loose | same | listed
        · exact .inl loose
        · exact absurd (Option.some.inj same).symm injected
        · exact .inr fun other same => listed other (shape.trans same)
      have inner := (lookup_keptIn (view.query.erase "pathParams") kept).trans (AList.lookup_erase_ne injected)
      cases view.query.lookup "pathParams" with
      | some saved => exact (AList.lookup_insert_ne injected).trans inner
      | none => exact inner

theorem lookup_query_dropped (drops : ¬ Stays decl .params name) :
    (returned decl view traceparent).query.lookup name = none := by
  have filtered : ¬ decl.unfiltered = true := fun loose => drops (.inl loose)
  have injected : name ≠ "pathParams" := fun same => drops (.inr (.inl (by rw [same]; rfl)))
  unfold returned
  simp only
  cases shape : decl.allowed .params with
  | none => exact absurd (.inr (.inr fun names same => by cases shape.symm.trans same)) drops
  | some names =>
    simp only
    have inner : (keptIn decl (some names) (view.query.erase "pathParams")).lookup name = none := by
      refine AList.lookup_eq_none.mpr fun member => drops ?_
      rcases (mem_keptIn.mp member).2 with loose | listed
      · exact .inl loose
      · exact .inr (.inr fun other same => listed other (shape.symm.trans same))
    cases view.query.lookup "pathParams" with
    | some saved => exact (AList.lookup_insert_ne injected).trans inner
    | none => exact inner

theorem lookup_headers (kept : KeptBy decl decl.effectiveAllowedHeader name) (held : name ∈ view.headers) :
    (returned decl view traceparent).headers.lookup name = view.headers.lookup name := by
  unfold returned DeclarationStep.allowed
  simp only
  cases shape : decl.effectiveAllowedHeader with
  | none => rfl
  | some names =>
    rw [shape] at kept
    have inner := lookup_keptIn view.headers kept
    have member : name ∈ keptIn decl (some names) view.headers := mem_keptIn.mpr ⟨held,kept⟩
    simp only
    by_cases present : "traceparent" ∈ keptIn decl (some names) view.headers
    · rw [if_pos present]
      exact inner
    · rw [if_neg present,AList.lookup_insert_ne (fun same => present (by rw [← same]; exact member))]
      exact inner

/-- The headers that are returned: those that are kept, with their values, and a traceparent. -/
theorem lookup_headers_cases (found : (returned decl view traceparent).headers.lookup name = some value) :
    (view.headers.lookup name = some value ∧ KeptBy decl decl.effectiveAllowedHeader name) ∨
      (name = "traceparent" ∧ value = traceparent ∧ decl.effectiveAllowedHeader.isSome = true) := by
  unfold returned DeclarationStep.allowed at found
  simp only at found
  cases shape : decl.effectiveAllowedHeader with
  | none =>
    rw [shape] at found
    exact .inl ⟨found,.inr fun names same => by cases same⟩
  | some names =>
    rw [shape] at found
    simp only at found
    have inside (held : (keptIn decl (some names) view.headers).lookup name = some value) :
        view.headers.lookup name = some value ∧ KeptBy decl (some names) name := by
      have member : name ∈ keptIn decl (some names) view.headers := AList.lookup_isSome.mp (by rw [held]; rfl)
      exact ⟨lookup_of_keptIn held,(mem_keptIn.mp member).2⟩
    by_cases present : "traceparent" ∈ keptIn decl (some names) view.headers
    · rw [if_pos present] at found
      exact .inl (inside found)
    · rw [if_neg present] at found
      by_cases injected : name = "traceparent"
      · subst injected
        rw [AList.lookup_insert] at found
        exact .inr ⟨rfl,(Option.some.inj found).symm,rfl⟩
      · rw [AList.lookup_insert_ne injected] at found
        exact .inl (inside found)

theorem traceparent_returned (listed : decl.effectiveAllowedHeader.isSome = true) :
    "traceparent" ∈ (returned decl view traceparent).headers := by
  unfold returned DeclarationStep.allowed
  obtain ⟨names,shape⟩ := Option.isSome_iff_exists.mp listed
  simp only [shape]
  split
  · assumption
  · exact (AList.mem_insert _).mpr (.inl rfl)

/-- The names of the returned view. -/
theorem has_returned (part : Section) (name : String) :
    (returned decl view traceparent).Has part name ↔ Leaves decl view part name := by
  cases part with
  | body =>
    simp only [Leaves,stays_body,reduceCtorEq,false_and,or_false]
    exact mem_keptIn
  | params =>
    simp only [Leaves,reduceCtorEq,false_and,or_false,RequestView.Has]
    by_cases stays : Stays decl .params name
    · rw [← AList.lookup_isSome,lookup_query decl view traceparent stays,AList.lookup_isSome]
      simp [stays]
    · have gone := lookup_query_dropped decl view traceparent stays
      rw [AList.lookup_eq_none] at gone
      simp [gone,stays]
  | headers =>
    have stays : KeptBy decl decl.effectiveAllowedHeader name → Stays decl .headers name
      | .inl loose => .inl loose
      | .inr listed => .inr (.inr listed)
    simp only [Leaves,true_and,RequestView.Has]
    constructor
    · intro member
      obtain ⟨value,found⟩ := Option.isSome_iff_exists.mp (AList.lookup_isSome.mpr member)
      rcases lookup_headers_cases decl view traceparent found with ⟨held,kept⟩ | ⟨injected,_,listed⟩
      · exact .inl ⟨AList.lookup_isSome.mp (by rw [held]; rfl),stays kept⟩
      · exact .inr ⟨injected,listed⟩
    · have unlisted (held : name ∈ view.headers) (kept : KeptBy decl decl.effectiveAllowedHeader name) :
          name ∈ (returned decl view traceparent).headers := by
        rw [← AList.lookup_isSome,lookup_headers decl view traceparent kept held]
        exact AList.lookup_isSome.mpr held
      rintro (⟨held,loose | same | listed⟩ | ⟨rfl,listed⟩)
      · exact unlisted held (.inl loose)
      · cases Option.some.inj same
        cases shape : decl.effectiveAllowedHeader with
        | none => exact unlisted held (.inr fun names same => by cases shape.symm.trans same)
        | some names => exact traceparent_returned decl view traceparent (by rw [shape]; rfl)
      · exact unlisted held (.inr listed)
      · exact traceparent_returned decl view traceparent listed

/-- What is returned is returned again. -/
theorem returned_returned :
    returned decl (returned decl view traceparent) traceparent = returned decl view traceparent := by
  have body : keptIn decl (decl.allowed .body) (keptIn decl (decl.allowed .body) view.body) =
      keptIn decl (decl.allowed .body) view.body := keptIn_keptIn _ _
  have query : (returned decl (returned decl view traceparent) traceparent).query =
      (returned decl view traceparent).query := by
    unfold returned
    simp only
    cases decl.allowed .params with
    | none => rfl
    | some names =>
      simp only
      have absent : "pathParams" ∉ keptIn decl (some names) (view.query.erase "pathParams") :=
        fun member => (AList.mem_erase.mp (mem_keptIn.mp member).1).1 rfl
      cases view.query.lookup "pathParams" with
      | none =>
        simp only [erase_of_notMem absent,AList.lookup_eq_none.mpr absent]
        exact keptIn_keptIn _ _
      | some saved => simp only [erase_insert absent,AList.lookup_insert,keptIn_keptIn]
  have headers : (returned decl (returned decl view traceparent) traceparent).headers =
      (returned decl view traceparent).headers := by
    unfold returned
    simp only
    cases decl.allowed .headers with
    | none => rfl
    | some names =>
      simp only
      by_cases present : "traceparent" ∈ keptIn decl (some names) view.headers
      · simp only [if_pos present,keptIn_keptIn]
      · simp only [if_neg present]
        have given : "traceparent" ∈ (keptIn decl (some names) view.headers).insert "traceparent" traceparent :=
          (AList.mem_insert _).mpr (.inl rfl)
        have kept : ∀ other ∈ keptIn decl (some names) view.headers, KeptBy decl (some names) other :=
          fun _ member => (mem_keptIn.mp member).2
        rcases keptIn_insert present kept traceparent with same | same
        · simp only [same,if_pos given]
        · simp only [same,if_neg present]
  exact RequestView.mk.injEq .. |>.mpr ⟨body,query,headers⟩

end Returned
section Stages
variable {decl : DeclarationStep} {view : RequestView} {method : String}

theorem checkFieldTypes_ok {body : StringMap Json} (fields : List DslField) :
    checkFieldTypes body part fields = .ok () ↔
      ∀ field ∈ fields, ∀ declared value, field.fieldType = some declared →
        body.lookup field.field = some value → value.isNull = true ∨ hasFieldType declared value = true := by
  induction fields with
  | nil => simp [checkFieldTypes]
  | cons field rest ih =>
    rw [List.forall_mem_cons,← ih,checkFieldTypes]
    cases typed : field.fieldType with
    | none => simp
    | some declared =>
      cases found : body.lookup field.field with
      | none => simp
      | some value =>
        simp only [Option.some.injEq,Bool.or_eq_true]
        by_cases fits : value.isNull = true ∨ hasFieldType declared value = true
        · simp [fits]
        · simp [fits]

theorem effectiveAllowedBody_or (decl : DeclarationStep) : decl.effectiveAllowedBody =
    decl.allowedBody.or (decl.structuredBody.map fun fields => fields.map (·.field)) := rfl

theorem restrict_keptIn {map kept : StringMap α} : restrict decl map allow part = .ok kept ↔
    (decl.isStrict = true → ∀ name ∈ map, name ∈ allow) ∧ kept = keptIn decl (some allow) map :=
  restrict_ok

theorem mem_body (traceparent : String) :
    name ∈ (returned decl view traceparent).body ↔ view.Has .body name ∧ Stays decl .body name := by
  rw [stays_body]
  exact mem_keptIn

theorem mem_query :
    name ∈ (returned decl view traceparent).query ↔ view.Has .params name ∧ Stays decl .params name := by
  have leaves := has_returned decl view traceparent .params name
  simp only [Leaves,reduceCtorEq,false_and,or_false] at leaves
  exact leaves

/-- The types of the body are checked where the allowlist keeps the fields. -/
theorem types_ok (traceparent : String) :
    checkFieldTypes (returned decl view traceparent).body "body" (decl.structuredBody.getD []) = .ok () ↔
      ∀ field ∈ decl.structuredBody.getD [], ∀ declared value, field.fieldType = some declared →
        view.body.lookup field.field = some value → Stays decl .body field.field →
        value.isNull = true ∨ hasFieldType declared value = true := by
  rw [checkFieldTypes_ok]
  refine forall₂_congr fun field _ => forall₂_congr fun declared value => forall_congr' fun _ => ?_
  constructor
  · intro fits held stays
    exact fits ((lookup_keptIn view.body ((stays_body decl).mp stays)).trans held)
  · intro fits held
    have member : field.field ∈ (returned decl view traceparent).body := AList.lookup_isSome.mp (by rw [held]; rfl)
    exact fits (lookup_of_keptIn held) ((mem_body traceparent).mp member).2

/-- A declaration without an effective list for the body has no fields for it. -/
theorem structuredBody_of_none (shape : decl.effectiveAllowedBody = none) : decl.structuredBody = none := by
  rw [effectiveAllowedBody_or] at shape
  cases structured : decl.structuredBody with
  | none => rfl
  | some fields =>
    rw [structured] at shape
    cases legacy : decl.allowedBody <;> simp [legacy] at shape

/-- The body stage of a declaration. -/
theorem bodyStage_iff (traceparent : String) : bodyStage decl view method = .ok body ↔
    (decl.isStrict = true → ∀ names, decl.effectiveAllowedBody = some names → ∀ name ∈ view.body, name ∈ names) ∧
      (method = "POST" → ∀ name ∈ decl.requires, name ∈ (returned decl view traceparent).body) ∧
      checkFieldTypes (returned decl view traceparent).body "body" (decl.structuredBody.getD []) = .ok () ∧
      body = (returned decl view traceparent).body := by
  have kept : (returned decl view traceparent).body = keptIn decl decl.effectiveAllowedBody view.body := rfl
  unfold bodyStage DeclarationStep.requires
  rw [kept]
  cases shape : decl.effectiveAllowedBody with
  | none =>
    have fields := structuredBody_of_none shape
    rw [fields]
    constructor
    · intro same
      cases same
      exact ⟨fun _ _ same => (by cases same),by simp,rfl,rfl⟩
    · rintro ⟨_,_,_,rfl⟩
      rfl
  | some allow =>
    rw [except_bind_ok]
    constructor
    · rintro ⟨held,restricted,rest⟩
      obtain ⟨keyed,rfl⟩ := restrict_keptIn.mp restricted
      have known : decl.isStrict = true → ∀ names, some allow = some names → ∀ name ∈ view.body, name ∈ names := by
        rintro strict _ ⟨⟩
        exact keyed strict
      by_cases post : method = "POST"
      · rw [if_pos post] at rest
        obtain ⟨_,needed,rest⟩ := except_bind_inv rest
        obtain ⟨types,same⟩ := (typedBody_ok decl).mp rest
        exact ⟨known,fun _ => requireFields_ok.mp needed,types,same⟩
      · rw [if_neg post] at rest
        obtain ⟨types,same⟩ := (typedBody_ok decl).mp rest
        exact ⟨known,fun given => absurd given post,types,same⟩
    · rintro ⟨known,needed,types,rfl⟩
      refine ⟨_,restrict_keptIn.mpr ⟨fun strict => known strict allow rfl,rfl⟩,?_⟩
      by_cases post : method = "POST"
      · rw [if_pos post]
        exact except_bind_ok.mpr ⟨(),requireFields_ok.mpr (needed post),(typedBody_ok decl).mpr ⟨types,rfl⟩⟩
      · rw [if_neg post]
        exact (typedBody_ok decl).mpr ⟨types,rfl⟩

theorem enforceRequiredOneOf_raw : enforceRequiredOneOf decl view = .ok () ↔
    ∀ part, ∀ group ∈ decl.oneOf part, ∃ name ∈ group, view.Has part name := by
  unfold enforceRequiredOneOf DeclarationStep.oneOf
  cases decl.allowlist.bind (·.requiredOneOf) with
  | none => simp
  | some oneOf =>
    simp only [except_bind_ok]
    constructor
    · rintro ⟨_,body,_,params,headers⟩ (_ | _ | _) group member
      · obtain ⟨name,listed,held⟩ := checkOneOfGroups_ok.mp body group member
        exact ⟨name,listed,(decide_eq_true_iff (p := name ∈ view.body)).mp held⟩
      · obtain ⟨name,listed,held⟩ := checkOneOfGroups_ok.mp params group member
        exact ⟨name,listed,(decide_eq_true_iff (p := name ∈ view.query)).mp held⟩
      · obtain ⟨name,listed,held⟩ := checkOneOfGroups_ok.mp headers group member
        exact ⟨name,listed,(decide_eq_true_iff (p := name ∈ view.headers)).mp held⟩
    · intro met
      refine ⟨(),checkOneOfGroups_ok.mpr ?_,(),checkOneOfGroups_ok.mpr ?_,checkOneOfGroups_ok.mpr ?_⟩
      · intro group member
        obtain ⟨name,listed,held⟩ := met .body group member
        exact ⟨name,listed,decide_eq_true held⟩
      · intro group member
        obtain ⟨name,listed,held⟩ := met .params group member
        exact ⟨name,listed,decide_eq_true held⟩
      · intro group member
        obtain ⟨name,listed,held⟩ := met .headers group member
        exact ⟨name,listed,decide_eq_true held⟩

/-- The groups are checked on the body that is kept and on the params and headers as they came. -/
theorem enforceRequiredOneOf_iff (traceparent : String) :
    enforceRequiredOneOf decl { view with body := (returned decl view traceparent).body } = .ok () ↔
      (∀ group ∈ decl.oneOf .body, ∃ name ∈ group, view.Has .body name ∧ Stays decl .body name) ∧
      ∀ part, part ≠ .body → ∀ group ∈ decl.oneOf part, ∃ name ∈ group, view.Has part name := by
  rw [enforceRequiredOneOf_raw]
  constructor
  · intro met
    refine ⟨?_,?_⟩
    · intro group member
      obtain ⟨name,listed,held⟩ := met .body group member
      exact ⟨name,listed,(mem_body traceparent).mp held⟩
    · rintro (_ | _ | _) other
      · exact absurd rfl other
      · exact met .params
      · exact met .headers
  · rintro ⟨body,incoming⟩ (_ | _ | _) group member
    · obtain ⟨name,listed,held⟩ := body group member
      exact ⟨name,listed,(mem_body traceparent).mpr held⟩
    · exact incoming .params (by decide) group member
    · exact incoming .headers (by decide) group member

/-- The query stage of a declaration. -/
theorem queryStage_iff (traceparent : String) : queryStage decl view method = .ok query ↔
    (decl.isStrict = true → ∀ names, decl.effectiveAllowedParams = some names →
        ∀ name ∈ view.query, name ∈ names ∨ some "pathParams" = some name) ∧
      (method = "GET" → decl.effectiveAllowedParams.isSome = true →
        ∀ name ∈ decl.requires, name ∈ (returned decl view traceparent).query) ∧
      query = (returned decl view traceparent).query := by
  unfold queryStage
  cases shape : decl.effectiveAllowedParams with
  | none =>
    have same : (returned decl view traceparent).query = view.query := by
      unfold returned DeclarationStep.allowed
      simp only [shape]
    rw [same]
    constructor
    · intro same
      cases same
      exact ⟨fun _ _ same => (by cases same),by simp,rfl⟩
    · rintro ⟨_,_,rfl⟩
      rfl
  | some allow =>
    have same : (returned decl view traceparent).query =
        match view.query.lookup "pathParams" with
        | some saved => (keptIn decl (some allow) (view.query.erase "pathParams")).insert "pathParams" saved
        | none => keptIn decl (some allow) (view.query.erase "pathParams") := by
      unfold returned DeclarationStep.allowed
      simp only [shape]
    have known : (decl.isStrict = true → ∀ names, some allow = some names → ∀ name ∈ view.query,
        name ∈ names ∨ some "pathParams" = some name) ↔
          (decl.isStrict = true → ∀ name ∈ view.query.erase "pathParams", name ∈ allow) := by
      refine imp_congr_right fun _ => ?_
      constructor
      · intro known name member
        obtain ⟨other,held⟩ := AList.mem_erase.mp member
        exact (known allow rfl name held).resolve_right fun same => other (Option.some.inj same).symm
      · rintro keyed _ ⟨⟩ name member
        by_cases injected : name = "pathParams"
        · exact .inr (by rw [injected])
        · exact .inl (keyed name (AList.mem_erase.mpr ⟨injected,member⟩))
    have needs : (method = "GET" → (some allow).isSome = true →
        ∀ name ∈ decl.requires, name ∈ (returned decl view traceparent).query) ↔
          (method = "GET" → ∀ name ∈ decl.requires, name ∈ (returned decl view traceparent).query) := by simp
    rw [known,needs,except_bind_ok]
    cases saved : view.query.lookup "pathParams"
    all_goals
      simp only [saved] at same ⊢
      unfold DeclarationStep.requires
      constructor
      · rintro ⟨kept,restricted,rest⟩
        obtain ⟨keyed,rfl⟩ := restrict_keptIn.mp restricted
        rw [← same] at rest
        refine ⟨keyed,?_⟩
        cases body : decl.effectiveAllowedBody with
        | none =>
          simp only [body] at rest
          exact ⟨by simp,(Except.ok.inj rest).symm⟩
        | some allowBody =>
          simp only [body] at rest
          by_cases get : method = "GET"
          · rw [if_pos get] at rest
            obtain ⟨_,needed,done⟩ := except_bind_inv rest
            exact ⟨fun _ => requireFields_ok.mp needed,(Except.ok.inj done).symm⟩
          · rw [if_neg get] at rest
            exact ⟨fun given => absurd given get,(Except.ok.inj rest).symm⟩
      · rintro ⟨keyed,needed,rfl⟩
        refine ⟨_,restrict_keptIn.mpr ⟨keyed,rfl⟩,?_⟩
        rw [← same]
        cases body : decl.effectiveAllowedBody with
        | none => rfl
        | some allowBody =>
          simp only [body] at needed
          by_cases get : method = "GET"
          · simp only [if_pos get]
            exact except_bind_ok.mpr ⟨(),requireFields_ok.mpr (needed get),rfl⟩
          · simp only [if_neg get]
            rfl

/-- The header stage of a declaration. -/
theorem headerStage_iff (traceparent : String) : headerStage decl view traceparent = .ok headers ↔
    (decl.isStrict = true → ∀ names, decl.effectiveAllowedHeader = some names →
        ∀ name ∈ view.headers, name ∈ names ∨ some "traceparent" = some name) ∧
      headers = (returned decl view traceparent).headers := by
  unfold headerStage
  cases shape : decl.effectiveAllowedHeader with
  | none =>
    have same : (returned decl view traceparent).headers = view.headers := by
      unfold returned DeclarationStep.allowed
      simp only [shape]
    rw [same]
    constructor
    · intro done
      cases done
      exact ⟨fun _ _ same => (by cases same),rfl⟩
    · rintro ⟨_,rfl⟩
      rfl
  | some allow =>
    have same : (returned decl view traceparent).headers =
        if "traceparent" ∈ keptIn decl (some allow) view.headers then keptIn decl (some allow) view.headers
        else (keptIn decl (some allow) view.headers).insert "traceparent" traceparent := by
      unfold returned DeclarationStep.allowed
      simp only [shape]
    rw [same]
    cases strict : decl.isStrict with
    | true =>
      have keep (names : List String) : keptIn decl (some names) view.headers = view.headers := by
        simp [keptIn,DeclarationStep.unfiltered,strict]
      have listed : (∀ name ∈ view.headers, name ∈ allow ++ ["traceparent"]) ↔
          ∀ name ∈ view.headers, name ∈ allow ∨ "traceparent" = name := by
        simp [eq_comm]
      simp only [if_true,except_bind_ok,restrict_keptIn,strict,keep,listed,true_imp_iff,Option.some.injEq,forall_eq']
      constructor
      · rintro ⟨kept,⟨keyed,rfl⟩,done⟩
        exact ⟨keyed,(Except.ok.inj done).symm⟩
      · rintro ⟨keyed,rfl⟩
        exact ⟨_,⟨keyed,rfl⟩,rfl⟩
    | false =>
      simp only [Bool.false_eq_true,if_false,except_bind_ok,restrict_keptIn,strict,false_imp_iff,true_and]
      constructor
      · rintro ⟨kept,rfl,done⟩
        exact (Except.ok.inj done).symm
      · rintro rfl
        exact ⟨_,rfl,rfl⟩

/-- An accepted request, and the view that it leaves. -/
theorem applyDeclaration_iff (traceparent : String) :
    applyDeclaration decl view method traceparent = .ok out ↔
      Accepts decl view method ∧ out = returned decl view traceparent := by
  rw [applyDeclaration_eq]
  simp only [except_bind_ok,bodyStage_iff traceparent]
  constructor
  · rintro ⟨body,⟨inBody,post,types,rfl⟩,_,grouped,query,queried,headers,headed,same⟩
    obtain ⟨groups,incoming⟩ := (enforceRequiredOneOf_iff traceparent).mp grouped
    obtain ⟨inQuery,get,rfl⟩ := (queryStage_iff traceparent).mp queried
    obtain ⟨inHeaders,rfl⟩ := (headerStage_iff traceparent).mp headed
    cases same
    refine ⟨⟨?_,fun given name needed => (mem_body traceparent).mp (post given name needed),
      (types_ok traceparent).mp types,groups,incoming,
      fun given listed name needed => mem_query.mp (get given listed name needed)⟩,rfl⟩
    rintro strict (_ | _ | _) names shape name held
    · exact .inl (inBody strict names shape name held)
    · exact inQuery strict names shape name held
    · exact inHeaders strict names shape name held
  · rintro ⟨accepts,rfl⟩
    refine ⟨_,⟨?_,fun given name needed => (mem_body traceparent).mpr (accepts.post given name needed),
      (types_ok traceparent).mpr accepts.types,rfl⟩,(),
      (enforceRequiredOneOf_iff traceparent).mpr ⟨accepts.body,accepts.incoming⟩,_,
      (queryStage_iff traceparent).mpr ⟨fun strict => accepts.known strict .params,
        fun given listed name needed => mem_query.mpr (accepts.get given listed name needed),rfl⟩,_,
      (headerStage_iff traceparent).mpr ⟨fun strict => accepts.known strict .headers,rfl⟩,rfl⟩
    intro strict names shape name held
    exact (accepts.known strict .body names shape name held).resolve_right (fun same => by cases same)

/-- The request passes the declaration of a guard. -/
structure GuardAccepts (decl : DeclarationStep) (view : RequestView) (method : String) : Prop where
  post : method = "POST" → ∀ name ∈ decl.requires, view.Has .body name
  types : ∀ field ∈ decl.structuredBody.getD [], ∀ declared value, field.fieldType = some declared →
    view.body.lookup field.field = some value → value.isNull = true ∨ hasFieldType declared value = true
  get : method = "GET" → (decl.allowed .params).isSome = true → ∀ name ∈ decl.requires, view.Has .params name
  groups : ∀ part, ∀ group ∈ decl.oneOf part, ∃ name ∈ group, view.Has part name

/-- The checks of a guard, in a row. -/
theorem enforceGuardDeclaration_eq (decl : DeclarationStep) (view : RequestView) (method : String) :
    enforceGuardDeclaration decl view method =
      ((if method = "POST" then requireFields view.body decl.requires else pure ()) >>= fun _ =>
        checkFieldTypes view.body "body" (decl.structuredBody.getD []) >>= fun _ =>
        (if method = "GET" ∧ decl.effectiveAllowedParams.isSome = true then requireFields view.query decl.requires
          else pure ()) >>= fun _ => enforceRequiredOneOf decl view) := by
  unfold enforceGuardDeclaration DeclarationStep.requires
  cases body : decl.effectiveAllowedBody with
  | none =>
    rw [structuredBody_of_none body]
    cases decl.effectiveAllowedParams with
    | none => by_cases post : method = "POST" <;> simp [post,requireFields,checkFieldTypes] <;> rfl
    | some names =>
      by_cases post : method = "POST" <;> by_cases get : method = "GET" <;>
        simp [post,get,requireFields,checkFieldTypes] <;> rfl
  | some allow =>
    cases decl.structuredBody <;> cases decl.effectiveAllowedParams <;> by_cases post : method = "POST" <;>
      by_cases get : method = "GET" <;> simp [post,get,checkFieldTypes] <;> rfl

theorem enforceGuardDeclaration_iff :
    enforceGuardDeclaration decl view method = .ok () ↔ GuardAccepts decl view method := by
  have branch {c : Prop} [Decidable c] {map : StringMap Json} {names : List String} :
      (if c then requireFields map names else pure () : Except RuuterError Unit) = .ok () ↔
        (c → ∀ name ∈ names, name ∈ map) := by
    split
    · rename_i given
      simp [requireFields_ok,given]
    · rename_i other
      simp [other,pure,Except.pure]
  rw [enforceGuardDeclaration_eq]
  simp only [except_bind_ok,branch,enforceRequiredOneOf_raw]
  constructor
  · rintro ⟨_,post,_,types,_,get,groups⟩
    exact ⟨post,(checkFieldTypes_ok _).mp types,fun given listed => get ⟨given,listed⟩,groups⟩
  · intro accepts
    exact ⟨(),accepts.post,(),(checkFieldTypes_ok _).mpr accepts.types,(),
      fun given => accepts.get given.1 given.2,accepts.groups⟩

end Stages

section Postcondition

/-- What is promised of one section of the returned view: no name but the listed and the injected
ones, unless the declaration is additive; every entry with its value, or put in by the framework;
and every entry that is not to be dropped. -/
structure Filtered (decl : DeclarationStep) (part : Section) (put : String → α → Prop) (map out : StringMap α) :
    Prop where
  listed : decl.isAdditive = false → ∀ names, decl.allowed part = some names →
    ∀ name ∈ out, name ∈ names ∨ part.injected = some name
  original : ∀ name value, out.lookup name = some value → map.lookup name = some value ∨ put name value
  kept : ∀ name value, map.lookup name = some value →
    (decl.isAdditive = true ∨ ∀ names, decl.allowed part = some names → name ∈ names) →
    out.lookup name = some value

/-- The view that a declaration returns meets the declaration. -/
structure Upheld (decl : DeclarationStep) (method traceparent : String) (view out : RequestView) : Prop where
  body : Filtered decl .body (fun _ _ => False) view.body out.body
  params : Filtered decl .params (fun _ _ => False) view.query out.query
  headers : Filtered decl .headers (fun name value => name = "traceparent" ∧ value = traceparent)
    view.headers out.headers
  groups : ∀ part, ∀ group ∈ decl.oneOf part, ∃ name ∈ group, out.Has part name
  again : applyDeclaration decl out method traceparent = .ok out

/-- A request that is accepted is returned as the declaration demands. -/
def UpholdsItself (decl : DeclarationStep) (view : RequestView) (method traceparent : String) : Prop :=
  ∀ out, applyDeclaration decl view method traceparent = .ok out → Upheld decl method traceparent view out

/-- Each group has a member that its section leaves in the view. -/
def GroupsLeft (decl : DeclarationStep) (view : RequestView) : Prop :=
  ∀ part, ∀ group ∈ decl.oneOf part, ∃ name ∈ group, Leaves decl view part name

variable {decl : DeclarationStep} {view : RequestView} {method : String}

theorem listed_of_leaves {part : Section} (accepts : Accepts decl view method) (additive : decl.isAdditive = false)
    (shape : decl.allowed part = some names) (leaves : Leaves decl view part name) :
    name ∈ names ∨ part.injected = some name := by
  rcases leaves with ⟨held,loose | injected | listed⟩ | ⟨rfl,rfl,_⟩
  · have strict : decl.isStrict = true := by simpa [DeclarationStep.unfiltered,additive] using loose
    exact accepts.known strict part names shape name held
  · exact .inr injected
  · exact .inl (listed names shape)
  · exact .inr rfl

theorem filtered_body (accepts : Accepts decl view method) (traceparent : String) :
    Filtered decl .body (fun _ _ => False) view.body (returned decl view traceparent).body where
  listed additive names shape name member :=
    listed_of_leaves accepts additive shape ((has_returned decl view traceparent .body name).mp member)
  original name value found := .inl (lookup_of_keptIn found)
  kept name value found stays := by
    have kept : KeptBy decl decl.effectiveAllowedBody name :=
      stays.imp_left fun additive => by simp [DeclarationStep.unfiltered,additive]
    exact (lookup_keptIn view.body kept).trans found

theorem filtered_params (accepts : Accepts decl view method) (traceparent : String) :
    Filtered decl .params (fun _ _ => False) view.query (returned decl view traceparent).query where
  listed additive names shape name member :=
    listed_of_leaves accepts additive shape ((has_returned decl view traceparent .params name).mp member)
  original name value found := by
    left
    by_cases stays : Stays decl .params name
    · rwa [lookup_query decl view traceparent stays] at found
    · cases (lookup_query_dropped decl view traceparent stays).symm.trans found
  kept name value found stays := by
    have kept : Stays decl .params name := by
      rcases stays with additive | listed
      · exact .inl (by simp [DeclarationStep.unfiltered,additive])
      · exact .inr (.inr listed)
    rwa [lookup_query decl view traceparent kept]

theorem filtered_headers (accepts : Accepts decl view method) (traceparent : String) :
    Filtered decl .headers (fun name value => name = "traceparent" ∧ value = traceparent) view.headers
      (returned decl view traceparent).headers where
  listed additive names shape name member :=
    listed_of_leaves accepts additive shape ((has_returned decl view traceparent .headers name).mp member)
  original name value found :=
    (lookup_headers_cases decl view traceparent found).imp And.left fun injected => ⟨injected.1,injected.2.1⟩
  kept name value found stays := by
    have kept : KeptBy decl decl.effectiveAllowedHeader name :=
      stays.imp_left fun additive => by simp [DeclarationStep.unfiltered,additive]
    have held : name ∈ view.headers := AList.lookup_isSome.mp (by rw [found]; rfl)
    rwa [lookup_headers decl view traceparent kept held]

/-- A returned view whose groups are met is accepted again. -/
theorem accepts_returned (accepts : Accepts decl view method) (left : GroupsLeft decl view) (traceparent : String) :
    Accepts decl (returned decl view traceparent) method where
  known strict part names shape name held := by
    rcases (has_returned decl view traceparent part name).mp held with ⟨came,_⟩ | ⟨rfl,rfl,_⟩
    · exact accepts.known strict part names shape name came
    · exact .inr rfl
  post given name needed := by
    have held := accepts.post given name needed
    exact ⟨(has_returned decl view traceparent .body name).mpr (.inl held),held.2⟩
  types field member declared value typed found stays :=
    accepts.types field member declared value typed (lookup_of_keptIn found) stays
  body group member := by
    obtain ⟨name,inside,leaves⟩ := left .body group member
    refine ⟨name,inside,(has_returned decl view traceparent .body name).mpr leaves,?_⟩
    exact (leaves.resolve_right fun injected => by cases injected.1).2
  incoming part other group member := by
    obtain ⟨name,inside,leaves⟩ := left part group member
    exact ⟨name,inside,(has_returned decl view traceparent part name).mpr leaves⟩
  get given listed name needed := by
    have held := accepts.get given listed name needed
    exact ⟨(has_returned decl view traceparent .params name).mpr (.inl held),held.2⟩

/-- A declaration is upheld by the view it returns exactly when the request is refused, or each group
has a member that stays in its section. -/
theorem upholdsItself_iff (decl : DeclarationStep) (view : RequestView) (method traceparent : String) :
    UpholdsItself decl view method traceparent ↔ (Accepts decl view method → GroupsLeft decl view) := by
  constructor
  · intro upholds accepts part group member
    have upheld := upholds _ ((applyDeclaration_iff traceparent).mpr ⟨accepts,rfl⟩)
    obtain ⟨name,inside,held⟩ := upheld.groups part group member
    exact ⟨name,inside,(has_returned decl view traceparent part name).mp held⟩
  · intro left out accepted
    obtain ⟨accepts,rfl⟩ := (applyDeclaration_iff traceparent).mp accepted
    refine ⟨filtered_body accepts traceparent,filtered_params accepts traceparent,
      filtered_headers accepts traceparent,?_,?_⟩
    · intro part group member
      obtain ⟨name,inside,leaves⟩ := left accepts part group member
      exact ⟨name,inside,(has_returned decl view traceparent part name).mpr leaves⟩
    · refine (applyDeclaration_iff traceparent).mpr ⟨accepts_returned accepts (left accepts) traceparent,?_⟩
      exact (returned_returned decl view traceparent).symm

/-- The flat list of params replaces the list whose field the group names. -/
def shadowed : DeclarationStep where
  allowedParams := some ["a"]
  allowlist := some
    { params := some [{ field := "b" }]
      requiredOneOf := some { params := some [["b"]] } }

def onlyB : RequestView where
  query := AList.insert "pathParams" (.array []) (AList.insert "b" (.string "1") ∅)
  headers := AList.insert "traceparent" "t" ∅

/-- A request with `b` alone is accepted, and `b` is dropped. -/
theorem shadowed_not_upheld :
    shadowed.validatePosture = .ok () ∧ ¬ UpholdsItself shadowed onlyB "GET" "t" := by
  refine ⟨by decide +kernel,?_⟩
  intro upholds
  have upheld := upholds (returned shadowed onlyB "t") rfl
  obtain ⟨name,inside,held⟩ := upheld.groups .params ["b"] (by decide)
  cases List.mem_singleton.mp inside
  exact absurd held (by unfold RequestView.Has; decide)

end Postcondition
end Ruuter
