import Ruuter.DeclarationDemands
import Ruuter.Lib.Assoc

/-! Required fields in the OpenAPI operation and at run time: when the fields that the operation
of a route marks as required are those that its declaration enforces. -/
namespace Ruuter.OpenApi

/-- The request does not have a name. Header names compare without case. -/
def Lacks (view : RequestView) : Part → String → Prop
  | .body, name => name ∉ view.body
  | .query, name => name ∉ view.query
  | .header, name => ∀ other ∈ view.headers, Text.toAsciiLowercase other ≠ Text.toAsciiLowercase name

/-- The part in which a missing field was looked up. -/
def consulted (method : String) : Part := if method = "POST" then .body else .query

/-- The operation of a route and its declaration agree on what is required: a request without a
field that is marked is refused, and a field that is reported as missing is marked. -/
structure SameRequired (decl : DeclarationStep) (method : String) : Prop where
  enforced : ∀ part name, Marks (buildOperation method (some decl)) part name →
    ∀ view traceparent, Lacks view part name →
      ∃ text, applyDeclaration decl view method traceparent = .error (.badRequest text)
  marked : ∀ name view traceparent, applyDeclaration decl view method traceparent = .error (missing name) →
    Marks (buildOperation method (some decl)) (consulted method) name

section Condition

variable (decl : DeclarationStep) (method : String)

/-- The fields that are marked, read off the declaration. -/
def Marked : Part → String → Prop
  | .body, name => decl.proxy = none ∧ bodyBearing method = true ∧ name ∈ required decl
  | .query, name => name ∈ requiredNames (decl.structuredParams.getD [])
  | .header, name => name ∈ requiredNames (decl.structuredHeaders.getD [])

/-- What a request without a name does not have. -/
def lacking : Part → String → Place → String → Prop
  | .body, name, .body, other => other = name
  | .query, name, .query, other | .query, name, .keptQuery, other => other = name
  | .header, name, .headers, other => Text.toAsciiLowercase other = Text.toAsciiLowercase name
  | _, _, _, _ => False

/-- What a request does not have whose name does not stay in the query. -/
def dropped (name : String) : Place → String → Prop
  | .query, other => other = name ∧ Passes decl .keptQuery name
  | .keptQuery, other => other = name
  | _, _ => False

/-- The names that can be in a place when its check comes. -/
def Reaches (headers : String → Prop) : Place → String → Prop
  | .headers, name => headers name
  | place, name => Passes decl place name

/-- For each demand there is a name that can be in its place and is not ruled out. -/
def Meetable (headers : String → Prop) (absent : Place → String → Prop)
    (listed : List (Place × List String)) : Prop :=
  ∀ demand ∈ listed, ∃ name ∈ demand.2, Reaches decl headers demand.1 name ∧ ¬ absent demand.1 name

/-- The demands of a declaration cover what the operation marks. -/
structure Demanding : Prop where
  /-- Without a marked name the demands cannot be met. -/
  covers : ∀ part name, Marked decl method part name →
    ¬ Meetable decl (Passes decl .headers) (lacking part name) (demands decl method)
  /-- A POST that demands body fields is no pass-through route. -/
  post : method = "POST" → required decl ≠ [] → decl.proxy = none
  /-- A body field that a GET can miss in the query is a required query parameter as well. The
  keys of the headers are checked later. -/
  get : method = "GET" → decl.structuredParams.isSome = true → ∀ before name after,
    required decl = before ++ name :: after → ¬ Marked decl method .query name →
      ¬ Meetable decl (fun _ => True) (dropped decl name)
        (groups decl ++ before.map fun other => (.keptQuery,[other]))

end Condition

section Supply

/-- A map with one value under each name. -/
def filled (value : α) (names : List String) : StringMap α :=
  names.foldl (fun map name => map.insert name value) ∅

theorem mem_filled {value : α} : name ∈ filled value names ↔ name ∈ names := by
  unfold filled
  rw [Assoc.mem_foldl_insert]
  simp

theorem lookup_filled {value held : α} (found : (filled value names).lookup name = some held) : held = value := by
  unfold filled at found
  rw [Assoc.lookup_foldl_insert] at found
  cases first : names.reverse.find? (· = name) with
  | none =>
    rw [first] at found
    cases found
  | some other =>
    rw [first] at found
    exact (Option.some.inj found).symm

theorem lookup_filterStrKeyed {map : StringMap α}
    (found : (filterStrKeyed map allowed).lookup name = some value) : map.lookup name = some value := by
  have member := AList.mem_lookup_iff.mp found
  exact AList.mem_lookup_iff.mpr (List.mem_filter.mp member).1

/-- Nulls have every type. -/
theorem checkFieldTypes_null {body : StringMap Json}
    (nulls : ∀ name value, body.lookup name = some value → value = .null) (fields : List DslField) :
    checkFieldTypes body part fields = .ok () := by
  induction fields with
  | nil => rfl
  | cons field rest ih =>
    unfold checkFieldTypes
    split
    · rename_i found
      rw [nulls _ _ found]
      exact ih
    · exact ih

variable {decl : DeclarationStep} {headers : String → Prop} {absent : Place → String → Prop}
  {listed : List (Place × List String)}

theorem passes_query_of_kept (passes : Passes decl .keptQuery name) : Passes decl .query name := by
  rcases passes with none | loose | injected | inside
  · exact .inl none
  · exact .inr (.inl loose.1)
  · exact .inr (.inr (.inl injected))
  · exact .inr (.inr (.inr inside))

theorem keptBody_null {view : RequestView}
    (nulls : ∀ name value, view.body.lookup name = some value → value = .null) :
    ∀ name value, (keptBody decl view).lookup name = some value → value = .null := by
  intro name value found
  unfold keptBody at found
  split at found
  · exact nulls name value found
  · split at found
    · exact nulls name value found
    · exact nulls name value (lookup_filterStrKeyed found)

open Classical in
/-- The demanded names of a place that can be there and are not ruled out. -/
noncomputable def supply (decl : DeclarationStep) (headers : String → Prop) (absent : Place → String → Prop)
    (listed : List (Place × List String)) (place : Place) : List String :=
  (listed.flatMap fun demand => if demand.1 = place then demand.2 else []).filter fun name =>
    decide (Reaches decl headers place name ∧ ¬ absent place name)

theorem mem_supply : name ∈ supply decl headers absent listed place ↔
    (∃ demand ∈ listed, demand.1 = place ∧ name ∈ demand.2) ∧
      Reaches decl headers place name ∧ ¬ absent place name := by
  unfold supply
  rw [List.mem_filter,List.mem_flatMap]
  simp only [decide_eq_true_eq]
  refine and_congr_left fun _ => ?_
  constructor
  · rintro ⟨demand,member,inside⟩
    split at inside
    · rename_i same
      exact ⟨demand,member,same,inside⟩
    · cases inside
  · rintro ⟨demand,member,same,inside⟩
    exact ⟨demand,member,by rwa [if_pos same]⟩

/-- Demands that can be met are met by a request of nulls. -/
theorem exists_view (meetable : Meetable decl headers absent listed)
    (inward : ∀ name, absent .query name → absent .keptQuery name)
    (outward : ∀ name, absent .keptQuery name → Passes decl .keptQuery name → absent .query name) :
    ∃ view, ((∀ name ∈ view.body, Passes decl .body name) ∧ (∀ name ∈ view.query, Passes decl .query name) ∧
      ∀ name ∈ view.headers, headers name) ∧ Typed decl view ∧ Met decl view listed ∧
      ∀ place name, absent place name → ¬ Present decl view place name := by
  let view : RequestView :=
    { body := filled .null (supply decl headers absent listed .body)
      query := filled .null (supply decl headers absent listed .query ++ supply decl headers absent listed .keptQuery)
      headers := filled "" (supply decl headers absent listed .headers) }
  have inBody : ∀ name, name ∈ view.body ↔ name ∈ supply decl headers absent listed .body := fun _ => mem_filled
  have inQuery : ∀ name, name ∈ view.query ↔
      name ∈ supply decl headers absent listed .query ∨ name ∈ supply decl headers absent listed .keptQuery :=
    fun _ => mem_filled.trans List.mem_append
  have inHeaders : ∀ name, name ∈ view.headers ↔ name ∈ supply decl headers absent listed .headers :=
    fun _ => mem_filled
  refine ⟨view,⟨?_,?_,?_⟩,?_,?_,?_⟩
  · intro name member
    exact (mem_supply.mp ((inBody name).mp member)).2.1
  · intro name member
    rcases (inQuery name).mp member with incoming | kept
    · exact (mem_supply.mp incoming).2.1
    · exact passes_query_of_kept (mem_supply.mp kept).2.1
  · intro name member
    exact (mem_supply.mp ((inHeaders name).mp member)).2.1
  · exact checkFieldTypes_null (keptBody_null fun _ _ found => lookup_filled found) _
  · intro demand member
    obtain ⟨name,inside,passes,free⟩ := meetable demand member
    obtain ⟨place,names⟩ := demand
    have supplied : name ∈ supply decl headers absent listed place :=
      mem_supply.mpr ⟨⟨_,member,rfl,inside⟩,passes,free⟩
    refine ⟨name,inside,?_⟩
    cases place with
    | body => exact ⟨(inBody name).mpr supplied,passes⟩
    | query => exact (inQuery name).mpr (.inl supplied)
    | keptQuery => exact ⟨(inQuery name).mpr (.inr supplied),passes⟩
    | headers => exact (inHeaders name).mpr supplied
  · intro place name gone present
    cases place with
    | body => exact (mem_supply.mp ((inBody name).mp present.1)).2.2 gone
    | query =>
      rcases (inQuery name).mp present with incoming | kept
      · exact (mem_supply.mp incoming).2.2 gone
      · exact (mem_supply.mp kept).2.2 (inward name gone)
    | keptQuery =>
      rcases (inQuery name).mp present.1 with incoming | kept
      · exact (mem_supply.mp incoming).2.2 (outward name gone present.2)
      · exact (mem_supply.mp kept).2.2 gone
    | headers => exact (mem_supply.mp ((inHeaders name).mp present)).2.2 gone

theorem meetable_of_met {view : RequestView} (query : ∀ name ∈ view.query, Passes decl .query name)
    (inHeaders : ∀ name ∈ view.headers, headers name) (met : Met decl view listed)
    (gone : ∀ place name, absent place name → ¬ Present decl view place name) :
    Meetable decl headers absent listed := by
  intro demand member
  obtain ⟨name,inside,present⟩ := met demand member
  refine ⟨name,inside,?_,fun absent => gone _ name absent present⟩
  obtain ⟨place,names⟩ := demand
  cases place with
  | body => exact present.2
  | query => exact query name present
  | keptQuery => exact present.2
  | headers => exact inHeaders name present

end Supply

section Agreement

variable {decl : DeclarationStep} {method : String}

theorem marks_iff : Marks (buildOperation method (some decl)) part name ↔ Marked decl method part name := by
  cases part with
  | body => exact marks_body_iff
  | query => exact marks_query_iff
  | header => exact marks_header_iff

theorem passes_of_required (needed : name ∈ required decl) : Passes decl .body name := by
  obtain ⟨field,chosen,rfl⟩ := List.mem_map.mp needed
  exact .inr (.inr (List.mem_map.mpr ⟨field,(List.mem_filter.mp chosen).1,rfl⟩))

/-- A request lacks a name exactly when it is absent from the places of its part. -/
theorem lacks_iff {view : RequestView} (passes : part = .body → Passes decl .body name) :
    Lacks view part name ↔ ∀ place other, lacking part name place other → ¬ Present decl view place other := by
  cases part with
  | body =>
    constructor
    · rintro lacks (_ | _ | _ | _) other same present
      · cases same
        exact lacks present.1
      all_goals exact same
    · intro gone member
      exact gone .body name rfl ⟨member,passes rfl⟩
  | query =>
    constructor
    · rintro lacks (_ | _ | _ | _) other same present
      · exact same
      · cases same
        exact lacks present
      · cases same
        exact lacks present.1
      · exact same
    · intro gone member
      exact gone .query name rfl member
  | header =>
    constructor
    · rintro lacks (_ | _ | _ | _) other same present
      · exact same
      · exact same
      · exact same
      · exact lacks other present same
    · intro gone other member same
      exact gone .headers other same member

theorem enforced_iff (structured : Structured decl) :
    (∀ part name, Marks (buildOperation method (some decl)) part name →
      ∀ view traceparent, Lacks view part name →
        ∃ text, applyDeclaration decl view method traceparent = .error (.badRequest text)) ↔
      ∀ part name, Marked decl method part name →
        ¬ Meetable decl (Passes decl .headers) (lacking part name) (demands decl method) := by
  constructor
  · intro enforced part name marked meetable
    have passes : part = .body → Passes decl .body name := by
      rintro rfl
      exact passes_of_required marked.2.2
    have inward : ∀ other, lacking part name .query other → lacking part name .keptQuery other := by
      intro other gone
      cases part <;> exact gone
    have outward : ∀ other, lacking part name .keptQuery other → Passes decl .keptQuery other →
        lacking part name .query other := by
      intro other gone _
      cases part <;> exact gone
    obtain ⟨view,⟨body,query,headers⟩,types,met,gone⟩ := exists_view meetable inward outward
    have keyed : WellKeyed decl view := ⟨fun _ => body,query,headers⟩
    obtain ⟨text,refused⟩ := enforced part name (marks_iff.mpr marked) view "" ((lacks_iff passes).mpr gone)
    obtain ⟨out,accepted⟩ := (applyDeclaration_ok_iff structured "").mpr ⟨keyed,types,met⟩
    cases accepted.symm.trans refused
  · intro covers part name marks view traceparent lacks
    have marked := marks_iff.mp marks
    have passes : part = .body → Passes decl .body name := by
      rintro rfl
      exact passes_of_required marked.2.2
    cases result : applyDeclaration decl view method traceparent with
    | error e =>
      obtain ⟨text,rfl⟩ := applyDeclaration_badRequest traceparent _ result
      exact ⟨text,rfl⟩
    | ok out =>
      obtain ⟨keyed,_,met⟩ := (applyDeclaration_ok_iff structured traceparent).mp ⟨out,result⟩
      exact absurd (meetable_of_met keyed.query keyed.headers met ((lacks_iff passes).mp lacks))
        (covers part name marked)

/-- A POST reports a missing field of its body, so nothing but a proxy keeps it unmarked. -/
theorem post_marked_iff (structured : Structured decl) :
    (∀ name view traceparent, applyDeclaration decl view "POST" traceparent = .error (missing name) →
      Marks (buildOperation "POST" (some decl)) .body name) ↔ (required decl ≠ [] → decl.proxy = none) := by
  constructor
  · intro marked demanded
    obtain ⟨name,rest,shape⟩ := List.exists_cons_of_ne_nil demanded
    have empty : ∀ name ∈ ({} : RequestView).body, Passes decl .body name := by
      intro name member
      exact absurd member (AList.notMem_empty name)
    have first : requireFields (keptBody decl {}) (required decl) = .error (missing name) := by
      refine requireFields_missing.mpr ⟨[],rest,shape,by simp,?_⟩
      intro held
      exact AList.notMem_empty name ((mem_keptBody fun _ => empty).mp held).1
    have refused := (applyDeclaration_missing_iff structured "").mpr ⟨fun _ => empty,.inl ⟨rfl,first⟩⟩
    exact (marks_body_iff.mp (marked name {} "" refused)).1
  · intro post name view traceparent refused
    obtain ⟨_,⟨_,first⟩ | ⟨get,_⟩⟩ := (applyDeclaration_missing_iff structured traceparent).mp refused
    · obtain ⟨before,after,shape,_,_⟩ := requireFields_missing.mp first
      have needed : name ∈ required decl := by simp [shape]
      exact marks_body_iff.mpr ⟨post (List.ne_nil_of_mem needed),by decide,needed⟩
    · exact absurd get (by decide)

/-- A GET reports the first required body field that its query lacks. -/
theorem get_marked_iff (structured : Structured decl) :
    (∀ name view traceparent, applyDeclaration decl view "GET" traceparent = .error (missing name) →
      Marks (buildOperation "GET" (some decl)) .query name) ↔
      (decl.structuredParams.isSome = true → ∀ before name after,
        required decl = before ++ name :: after → ¬ Marked decl "GET" .query name →
          ¬ Meetable decl (fun _ => True) (dropped decl name)
            (groups decl ++ before.map fun other => (.keptQuery,[other]))) := by
  constructor
  · intro marked listed before name after shape unmarked meetable
    obtain ⟨view,⟨body,query,_⟩,types,met,gone⟩ := exists_view meetable
      (fun _ given => given.1) (fun _ same passes => ⟨same,same ▸ passes⟩)
    obtain ⟨grouped,earlier⟩ := met_append.mp met
    have first : requireFields (keptQuery decl view) (required decl) = .error (missing name) := by
      refine requireFields_missing.mpr ⟨before,after,shape,?_,?_⟩
      · intro other inside
        exact (mem_keptQuery query).mpr (met_names.mp earlier other inside)
      · intro held
        exact gone .keptQuery name rfl ((mem_keptQuery query).mp held)
    have refused := (applyDeclaration_missing_iff structured "").mpr
      ⟨fun _ => body,.inr ⟨rfl,listed,types,grouped,query,first⟩⟩
    exact unmarked (marks_iff.mp (marked name view "" refused))
  · intro covered name view traceparent refused
    obtain ⟨_,⟨post,_⟩ | ⟨_,listed,_,grouped,query,first⟩⟩ :=
      (applyDeclaration_missing_iff structured traceparent).mp refused
    · exact absurd post (by decide)
    obtain ⟨before,after,shape,held,absent⟩ := requireFields_missing.mp first
    apply marks_iff.mpr
    by_contra unmarked
    refine covered listed before name after shape unmarked (meetable_of_met query (fun _ _ => trivial) ?_ ?_)
    · refine met_append.mpr ⟨grouped,met_names.mpr ?_⟩
      intro other inside
      exact (mem_keptQuery query).mp (held other inside)
    · rintro (_ | _ | _ | _) other gone present
      · exact gone
      · obtain ⟨rfl,passes⟩ := gone
        exact absent ((mem_keptQuery query).mpr ⟨present,passes⟩)
      · cases gone
        exact absent ((mem_keptQuery query).mpr present)
      · exact gone

theorem marked_iff (structured : Structured decl) :
    (∀ name view traceparent, applyDeclaration decl view method traceparent = .error (missing name) →
      Marks (buildOperation method (some decl)) (consulted method) name) ↔
      (method = "POST" → required decl ≠ [] → decl.proxy = none) ∧
      (method = "GET" → decl.structuredParams.isSome = true → ∀ before name after,
        required decl = before ++ name :: after → ¬ Marked decl method .query name →
          ¬ Meetable decl (fun _ => True) (dropped decl name)
            (groups decl ++ before.map fun other => (.keptQuery,[other]))) := by
  by_cases post : method = "POST"
  · subst post
    refine (post_marked_iff structured).trans ⟨fun alone => ⟨fun _ => alone,?_⟩,fun both => both.1 rfl⟩
    intro get
    exact absurd get (by decide)
  by_cases get : method = "GET"
  · subst get
    refine (get_marked_iff structured).trans ⟨fun covered => ⟨?_,fun _ => covered⟩,fun both => both.2 rfl⟩
    intro post
    exact absurd post (by decide)
  refine iff_of_true ?_ ⟨fun same => absurd same post,fun same => absurd same get⟩
  intro name view traceparent refused
  obtain ⟨_,⟨same,_⟩ | ⟨same,_⟩⟩ := (applyDeclaration_missing_iff structured traceparent).mp refused
  · exact absurd same post
  · exact absurd same get

end Agreement

/-- The operation and the run time agree on required fields exactly when the demands of the
declaration cover what the operation marks. -/
theorem sameRequired_iff (decl : DeclarationStep) (structured : Structured decl) (method : String) :
    SameRequired decl method ↔ Demanding decl method := by
  constructor
  · rintro ⟨enforced,marked⟩
    obtain ⟨post,get⟩ := (marked_iff structured).mp marked
    exact ⟨(enforced_iff structured).mp enforced,post,get⟩
  · rintro ⟨covers,post,get⟩
    exact ⟨(enforced_iff structured).mpr covers,(marked_iff structured).mpr ⟨post,get⟩⟩

def requiredField (name : String) : DslField := { field := name, required := some true }

/-- A declaration with one required body field. -/
def bodyDecl : DeclarationStep := { allowlist := some { body := some [requiredField "name"] } }

theorem post_sameRequired : SameRequired bodyDecl "POST" := by
  refine (sameRequired_iff bodyDecl ⟨rfl,rfl,rfl⟩ "POST").mpr ⟨?_,fun _ _ => rfl,?_⟩
  · intro part name marked meetable
    cases part with
    | body =>
      have only : name = "name" := List.mem_singleton.mp marked.2.2
      subst only
      obtain ⟨other,inside,_,free⟩ := meetable (.body,["name"]) (List.mem_singleton.mpr rfl)
      exact free (List.mem_singleton.mp inside)
    | query => cases marked
    | header => cases marked
  · intro get
    exact absurd get (by decide)

/-- A declaration with one required query parameter. -/
def paramDecl : DeclarationStep := { allowlist := some { params := some [requiredField "page"] } }

/-- A declaration with a required body field and an allowlist for the query. -/
def mixedDecl : DeclarationStep :=
  { allowlist := some { body := some [requiredField "name"], params := some [{ field := "page" }] } }

/-- A required query parameter is not enforced, a required body field is not enforced on a PUT, and
a GET is refused for a body field that its operation does not have. -/
theorem required_differs : ¬ SameRequired paramDecl "GET" ∧ ¬ SameRequired bodyDecl "PUT" ∧
    ¬ SameRequired mixedDecl "GET" := by
  refine ⟨?_,?_,?_⟩
  · intro same
    refine (enforced_iff ⟨rfl,rfl,rfl⟩).mp same.enforced .query "page" (List.mem_singleton.mpr rfl) ?_
    intro demand member
    cases member
  · intro same
    have marked : Marked bodyDecl "PUT" .body "name" := ⟨rfl,by decide,List.mem_singleton.mpr rfl⟩
    refine (enforced_iff ⟨rfl,rfl,rfl⟩).mp same.enforced .body "name" marked ?_
    intro demand member
    cases member
  · intro same
    have get := ((marked_iff ⟨rfl,rfl,rfl⟩).mp same.marked).2 rfl rfl [] "name" [] rfl
    refine get ?_ ?_
    · intro marked
      cases marked
    · intro demand member
      cases member

end Ruuter.OpenApi
