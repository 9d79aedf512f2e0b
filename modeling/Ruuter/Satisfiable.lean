import Ruuter.DeclarationContract
import Ruuter.RequiredFields

/-! Which declarations some request satisfies. The request is one that `execute_dsl` passes on: its
header names are in lower case, and it has the injected `pathParams` and `traceparent`. -/
namespace Ruuter
open OpenApi

/-- A request as `execute_dsl` passes it to the declaration. -/
structure Decoded (view : RequestView) (traceparent : String) : Prop where
  lower : ∀ name ∈ view.headers, Text.toAsciiLowercase name = name
  traceparent : view.headers.lookup "traceparent" = some traceparent
  texts : ∀ name value, view.query.lookup name = some value → name ≠ "pathParams" → ∃ text, value = .string text
  pathParams : ∃ segments, view.query.lookup "pathParams" = some (.array segments)

/-- Some request is accepted. -/
def Satisfiable (decl : DeclarationStep) (method : String) : Prop :=
  ∃ view traceparent out, Decoded view traceparent ∧ applyDeclaration decl view method traceparent = .ok out

section Condition
variable (decl : DeclarationStep)

/-- A name can come in a section without being refused. -/
def Comes (part : Section) (name : String) : Prop :=
  decl.isStrict = false ∨ part.injected = some name ∨ ∀ names, decl.allowed part = some names → name ∈ names

/-- A name can come in a section and stays in it. -/
def Admits (part : Section) (name : String) : Prop :=
  (decl.isStrict = false ∧ decl.isAdditive = true) ∨ part.injected = some name ∨
    ∀ names, decl.allowed part = some names → name ∈ names

/-- Each group has a member that a request can bring: for the body one that its list keeps, for
the headers one in lower case. The fields that a GET demands stay in the query. -/
structure Feasible (method : String) : Prop where
  body : ∀ group ∈ decl.oneOf .body, ∃ name ∈ group, Admits decl .body name
  params : ∀ group ∈ decl.oneOf .params, ∃ name ∈ group, Comes decl .params name
  headers : ∀ group ∈ decl.oneOf .headers, ∃ name ∈ group,
    Text.toAsciiLowercase name = name ∧ Comes decl .headers name
  get : method = "GET" → (decl.allowed .params).isSome = true → ∀ name ∈ decl.requires, Admits decl .params name

end Condition

section Names
variable {decl : DeclarationStep} {view : RequestView} {method : String} {part : Section}

theorem Admits.comes (admits : Admits decl part name) : Comes decl part name :=
  admits.imp_left And.left

theorem Admits.stays (admits : Admits decl part name) : Stays decl part name :=
  admits.imp_left fun loose => by simp [DeclarationStep.unfiltered,loose.2]

/-- What comes is not refused. -/
theorem Comes.known (comes : Comes decl part name) (strict : decl.isStrict = true)
    (shape : decl.allowed part = some names) :
    name ∈ names ∨ part.injected = some name := by
  rcases comes with loose | injected | listed
  · cases loose.symm.trans strict
  · exact .inr injected
  · exact .inl (listed names shape)

/-- A name of an accepted request can come. -/
theorem comes_of_has (accepts : Accepts decl view method) (held : view.Has part name) : Comes decl part name := by
  cases strict : decl.isStrict with
  | false => exact .inl strict
  | true =>
    cases shape : decl.allowed part with
    | none => exact .inr (.inr fun names same => by cases shape.symm.trans same)
    | some names =>
      rcases accepts.known strict part names shape name held with listed | injected
      · exact .inr (.inr fun other same => by cases shape.symm.trans same; exact listed)
      · exact .inr (.inl injected)

theorem admits_of_stays (accepts : Accepts decl view method) (held : view.Has part name)
    (stays : Stays decl part name) : Admits decl part name := by
  rcases comes_of_has accepts held with loose | later
  · refine stays.imp_left fun unfiltered => ⟨loose,?_⟩
    simpa [DeclarationStep.unfiltered,loose] using unfiltered
  · exact .inr later

/-- The fields that are demanded are on the list of the body. -/
theorem admits_of_requires (needed : name ∈ decl.requires) : Admits decl .body name := by
  refine .inr (.inr fun names shape => ?_)
  have listed : decl.effectiveAllowedBody = some names := shape
  unfold DeclarationStep.requires requiredBodyFieldNames at needed
  simp only [listed] at needed
  cases legacy : decl.allowedBody with
  | some flat =>
    rw [legacy] at needed
    exact needed
  | none =>
    rw [effectiveAllowedBody_or,legacy] at listed
    cases structured : decl.structuredBody with
    | none =>
      rw [structured] at listed
      cases listed
    | some fields =>
      rw [structured] at listed
      simp only [legacy,structured,Option.isSome_none,Bool.false_eq_true,if_false] at needed
      obtain ⟨field,chosen,rfl⟩ := List.mem_map.mp needed
      cases listed
      exact List.mem_map_of_mem (List.mem_filter.mp chosen).1

end Names

section Supply
variable {decl : DeclarationStep} {method : String}

open Classical in
/-- The names of the groups of a section that have a property. -/
noncomputable def groupMembers (decl : DeclarationStep) (part : Section) (P : String → Prop) : List String :=
  (decl.oneOf part).flatten.filter fun name => decide (P name)

theorem mem_groupMembers {P : String → Prop} :
    name ∈ groupMembers decl part P ↔ (∃ group ∈ decl.oneOf part, name ∈ group) ∧ P name := by
  unfold groupMembers
  rw [List.mem_filter,List.mem_flatten]
  simp

open Classical in
/-- A request that brings whatever can come: nulls in the body, empty texts elsewhere. -/
noncomputable def offered (decl : DeclarationStep) : RequestView where
  body := filled .null (groupMembers decl .body (Admits decl .body) ++ decl.requires)
  query := (filled (.string "") (groupMembers decl .params (Comes decl .params) ++
    decl.requires.filter fun name => decide (Admits decl .params name))).insert "pathParams" (.array [])
  headers := (filled "" (groupMembers decl .headers fun name =>
    Text.toAsciiLowercase name = name ∧ Comes decl .headers name)).insert "traceparent" ""

theorem has_offered_body (held : (offered decl).Has .body name) : Admits decl .body name := by
  rcases List.mem_append.mp (mem_filled.mp held) with grouped | needed
  · exact (mem_groupMembers.mp grouped).2
  · exact admits_of_requires needed

theorem has_offered_params (held : (offered decl).Has .params name) : Comes decl .params name := by
  rcases (AList.mem_insert _).mp held with rfl | inside
  · exact .inr (.inl rfl)
  · rcases List.mem_append.mp (mem_filled.mp inside) with grouped | needed
    · exact (mem_groupMembers.mp grouped).2
    · exact Admits.comes (by simpa using (List.mem_filter.mp needed).2)

theorem has_offered_headers (held : (offered decl).Has .headers name) :
    Text.toAsciiLowercase name = name ∧ Comes decl .headers name := by
  rcases (AList.mem_insert _).mp held with rfl | inside
  · exact ⟨by decide,.inr (.inl rfl)⟩
  · exact (mem_groupMembers.mp (mem_filled.mp inside)).2

theorem decoded_offered (decl : DeclarationStep) : Decoded (offered decl) "" where
  lower name member := (has_offered_headers member).1
  traceparent := AList.lookup_insert _
  texts name value found other := by
    have inside := (AList.lookup_insert_ne other).symm.trans found
    exact ⟨"",lookup_filled inside⟩
  pathParams := ⟨[],AList.lookup_insert _⟩

/-- A feasible declaration accepts what is offered. -/
theorem accepts_offered (feasible : Feasible decl method) : Accepts decl (offered decl) method where
  known strict part names shape name held := by
    cases part with
    | body => exact (has_offered_body held).comes.known strict shape
    | params => exact (has_offered_params held).known strict shape
    | headers => exact (has_offered_headers held).2.known strict shape
  post _ name needed :=
    ⟨mem_filled.mpr (List.mem_append_right _ needed),(admits_of_requires needed).stays⟩
  types field _ declared value _ found _ := by
    rw [lookup_filled found]
    exact .inl rfl
  body group member := by
    obtain ⟨name,inside,admits⟩ := feasible.body group member
    refine ⟨name,inside,mem_filled.mpr (List.mem_append_left _ ?_),admits.stays⟩
    exact mem_groupMembers.mpr ⟨⟨group,member,inside⟩,admits⟩
  incoming part other group member := by
    cases part with
    | body => exact absurd rfl other
    | params =>
      obtain ⟨name,inside,comes⟩ := feasible.params group member
      refine ⟨name,inside,(AList.mem_insert _).mpr (.inr (mem_filled.mpr (List.mem_append_left _ ?_)))⟩
      exact mem_groupMembers.mpr ⟨⟨group,member,inside⟩,comes⟩
    | headers =>
      obtain ⟨name,inside,lower,comes⟩ := feasible.headers group member
      refine ⟨name,inside,(AList.mem_insert _).mpr (.inr (mem_filled.mpr ?_))⟩
      exact mem_groupMembers.mpr ⟨⟨group,member,inside⟩,lower,comes⟩
  get given listed name needed := by
    have admits := feasible.get given listed name needed
    refine ⟨(AList.mem_insert _).mpr (.inr (mem_filled.mpr (List.mem_append_right _ ?_))),admits.stays⟩
    exact List.mem_filter.mpr ⟨needed,by simpa using admits⟩

/-- A request that is accepted has a member of every group, and it came and stays. -/
theorem feasible_of_satisfiable (satisfiable : Satisfiable decl method) : Feasible decl method := by
  obtain ⟨view,traceparent,out,decoded,accepted⟩ := satisfiable
  have accepts := ((applyDeclaration_iff traceparent).mp accepted).1
  refine ⟨?_,?_,?_,?_⟩
  · intro group member
    obtain ⟨name,inside,held,stays⟩ := accepts.body group member
    exact ⟨name,inside,admits_of_stays accepts held stays⟩
  · intro group member
    obtain ⟨name,inside,held⟩ := accepts.incoming .params (by decide) group member
    exact ⟨name,inside,comes_of_has accepts held⟩
  · intro group member
    obtain ⟨name,inside,held⟩ := accepts.incoming .headers (by decide) group member
    exact ⟨name,inside,decoded.lower name held,comes_of_has accepts held⟩
  · intro given listed name needed
    obtain ⟨held,stays⟩ := accepts.get given listed name needed
    exact admits_of_stays accepts held stays

/-- A declaration is satisfiable exactly when its groups have members that can come and a GET
demands no field that its params drop. -/
theorem satisfiable_iff (decl : DeclarationStep) (method : String) :
    Satisfiable decl method ↔ Feasible decl method := by
  constructor
  · exact feasible_of_satisfiable
  · intro feasible
    exact ⟨offered decl,"",_,decoded_offered decl,(applyDeclaration_iff "").mpr ⟨accepts_offered feasible,rfl⟩⟩

/-- An empty group passes the validation, and no request has one of its members. -/
theorem empty_group_unsatisfiable :
    let decl : DeclarationStep := { allowlist := some { requiredOneOf := some { params := some [[]] } } }
    decl.validatePosture = .ok () ∧ ∀ method, ¬ Satisfiable decl method := by
  refine ⟨by decide +kernel,fun method satisfiable => ?_⟩
  obtain ⟨name,inside,_⟩ := (feasible_of_satisfiable satisfiable).params [] (by decide)
  cases inside

end Supply
end Ruuter
