import Ruuter.Lib.Effect
import Ruuter.OpenApi

/-! What `apply_declaration` demands of a request, for declarations in the structured form: a
request passes when its keys are allowed, its types fit and each demand is met by one of the names
that it lists (`applyDeclaration_ok_iff`). -/
namespace Ruuter.OpenApi

open Eff

/-- The maps of a request as the checks see them: the query before and after it is restricted. -/
inductive Place
  | body | query | keptQuery | headers
deriving DecidableEq

section Declarations

variable (decl : DeclarationStep)

/-- A declaration in the structured form only. -/
structure Structured : Prop where
  body : decl.allowedBody = none
  params : decl.allowedParams = none
  header : decl.allowedHeader = none

def listed (fields : Option (List DslField)) : List String := (fields.getD []).map (·.field)

/-- The names that a section lets through. -/
def Passes : Place → String → Prop
  | .body, name =>
    decl.structuredBody = none ∨ (decl.isStrict = false ∧ decl.isAdditive = true) ∨
      name ∈ listed decl.structuredBody
  | .query, name =>
    decl.structuredParams = none ∨ decl.isStrict = false ∨ name = "pathParams" ∨
      name ∈ listed decl.structuredParams
  | .keptQuery, name =>
    decl.structuredParams = none ∨ (decl.isStrict = false ∧ decl.isAdditive = true) ∨
      name = "pathParams" ∨ name ∈ listed decl.structuredParams
  | .headers, name =>
    decl.structuredHeaders = none ∨ decl.isStrict = false ∨ name = "traceparent" ∨
      name ∈ listed decl.structuredHeaders

def required : List String := requiredNames (decl.structuredBody.getD [])

/-- The groups of `required_one_of` in the order of their checks. -/
def groups : List (Place × List String) :=
  match decl.allowlist.bind (·.requiredOneOf) with
  | none => []
  | some oneOf => (oneOf.body.getD []).map (.body,·) ++ (oneOf.params.getD []).map (.query,·) ++
      (oneOf.headers.getD []).map (.headers,·)

/-- What a request has to bring: one name of each list. -/
def demands (method : String) : List (Place × List String) :=
  (if method = "POST" then (required decl).map fun name => (.body,[name]) else []) ++ groups decl ++
    (if method = "GET" ∧ decl.structuredParams.isSome = true then
      (required decl).map fun name => (.keptQuery,[name]) else [])

/-- What a request has in a place. -/
def Present (view : RequestView) : Place → String → Prop
  | .body, name => name ∈ view.body ∧ Passes decl .body name
  | .query, name => name ∈ view.query
  | .keptQuery, name => name ∈ view.query ∧ Passes decl .keptQuery name
  | .headers, name => name ∈ view.headers

def Met (view : RequestView) (listed : List (Place × List String)) : Prop :=
  ∀ demand ∈ listed, ∃ name ∈ demand.2, Present decl view demand.1 name

/-- No key that a strict declaration refuses. -/
structure WellKeyed (view : RequestView) : Prop where
  body : decl.isStrict = true → ∀ name ∈ view.body, Passes decl .body name
  query : ∀ name ∈ view.query, Passes decl .query name
  headers : ∀ name ∈ view.headers, Passes decl .headers name

/-- The body behind the allowlist. -/
def keptBody (view : RequestView) : StringMap Json :=
  match decl.structuredBody with
  | none => view.body
  | some fields =>
    if decl.isStrict || decl.isAdditive then view.body
    else filterStrKeyed view.body (fields.map (·.field))

/-- The query behind the allowlist, with the injected `pathParams`. -/
def keptQuery (view : RequestView) : StringMap Json :=
  match decl.structuredParams with
  | none => view.query
  | some fields =>
    let query := view.query.erase "pathParams"
    let kept :=
      if decl.isStrict || decl.isAdditive then query else filterStrKeyed query (fields.map (·.field))
    match view.query.lookup "pathParams" with
    | some saved => kept.insert "pathParams" saved
    | none => kept

def Typed (view : RequestView) : Prop :=
  checkFieldTypes (keptBody decl view) "body" (decl.structuredBody.getD []) = .ok ()

end Declarations

section Checks

theorem mem_filterStrKeyed {map : StringMap α} :
    name ∈ filterStrKeyed map allowed ↔ name ∈ map ∧ name ∈ allowed := by
  have inside (map : StringMap α) : name ∈ map ↔ ∃ entry ∈ map.entries, entry.1 = name := List.mem_map
  rw [inside,inside]
  simp only [filterStrKeyed,List.mem_filter,List.contains_iff_mem]
  constructor
  · rintro ⟨entry,⟨member,kept⟩,rfl⟩
    exact ⟨⟨entry,member,rfl⟩,kept⟩
  · rintro ⟨⟨entry,member,rfl⟩,kept⟩
    exact ⟨entry,⟨member,kept⟩,rfl⟩

theorem rejectUnknown_ok : rejectUnknown keys allowed part = .ok () ↔ ∀ key ∈ keys, key ∈ allowed := by
  unfold rejectUnknown
  cases found : keys.find? (!allowed.contains ·) with
  | none => simpa using found
  | some key =>
    have member := List.mem_of_find?_eq_some found
    have outside := List.find?_some found
    simp only [reduceCtorEq,false_iff]
    intro all
    simp [all key member] at outside

theorem requireFields_ok {map : StringMap Json} : requireFields map names = .ok () ↔ ∀ name ∈ names, name ∈ map := by
  unfold requireFields
  cases found : names.find? fun name => !decide (name ∈ map) with
  | none => simpa using found
  | some name =>
    have member := List.mem_of_find?_eq_some found
    have outside := List.find?_some found
    simp only [reduceCtorEq,false_iff]
    intro all
    simp [all name member] at outside

def missing (name : String) : RuuterError := .badRequest ("Field missing: " ++ name)

/-- The first field that is missing is named. -/
theorem requireFields_missing {map : StringMap Json} : requireFields map names = .error (missing name) ↔
    ∃ before after, names = before ++ name :: after ∧ (∀ other ∈ before, other ∈ map) ∧ name ∉ map := by
  have first : requireFields map names = .error (missing name) ↔
      names.find? (fun name => !decide (name ∈ map)) = some name := by
    unfold requireFields missing
    cases names.find? fun name => !decide (name ∈ map) <;> simp
  rw [first,List.find?_eq_some_iff_append]
  constructor
  · rintro ⟨absent,before,after,same,earlier⟩
    exact ⟨before,after,same,by simpa using earlier,by simpa using absent⟩
  · rintro ⟨before,after,same,earlier,absent⟩
    exact ⟨by simpa using absent,before,after,same,by simpa using earlier⟩

theorem restrict_ok {map : StringMap α} : restrict decl map allow part = .ok kept ↔
    (decl.isStrict = true → ∀ name ∈ map, name ∈ allow) ∧
      kept = if decl.isStrict || decl.isAdditive then map else filterStrKeyed map allow := by
  unfold restrict
  cases decl.isStrict with
  | true =>
    have unknown : rejectUnknown map.keys allow part = .ok () ↔ _ := rejectUnknown_ok
    cases checked : rejectUnknown map.keys allow part with
    | ok u =>
      have all := unknown.mp checked
      simp only [if_true,Except.map,Except.ok.injEq,Bool.true_or,true_imp_iff]
      exact ⟨fun same => ⟨fun name member => all name (AList.mem_keys.mpr member),same.symm⟩,
        fun given => given.2.symm⟩
    | error e =>
      simp only [if_true,Except.map,reduceCtorEq,true_imp_iff,false_iff]
      rintro ⟨all,_⟩
      have accepted := unknown.mpr fun name member => all name (AList.mem_keys.mp member)
      cases checked.symm.trans accepted
  | false =>
    cases decl.isAdditive <;> simp [eq_comm]

/-- A refused key. -/
def unexpected (text : String) : RuuterError := .badRequest ("Unexpected field in " ++ text)

theorem restrict_failsWith (map : StringMap α) : FailsWith unexpected (restrict decl map allow part) := by
  unfold restrict rejectUnknown
  split
  · split
    · simp only [Except.map,String.append_assoc]
      exact failsWith_error unexpected _
    · exact failsWith_ok _
  · split <;> exact failsWith_ok _

/-- An error with another text is not about a missing field. -/
theorem ne_missing {front rest name : String} (long : 7 ≤ front.toList.length)
    (apart : front.toList.take 7 ≠ ['F','i','e','l','d',' ','m']) :
    RuuterError.badRequest (front ++ rest) ≠ missing name := by
  intro same
  have heads := congrArg (fun text => text.toList.take 7) (RuuterError.badRequest.inj same)
  have short : "Field missing: ".toList.take 7 = ['F','i','e','l','d',' ','m'] := by decide
  simp only [String.toList_append,List.take_append_of_le_length long] at heads
  rw [List.take_append_of_le_length (by decide),short] at heads
  exact apart heads

theorem restrict_ne_missing (map : StringMap α) : restrict decl map allow part ≠ .error (missing name) := by
  intro failed
  obtain ⟨text,same⟩ := restrict_failsWith map _ failed
  exact ne_missing (by decide) (by decide) same.symm

/-- A value of another type. -/
def mismatch (text : String) : RuuterError := .badRequest ("Field type mismatch in " ++ text)

theorem checkFieldTypes_failsWith (map : StringMap Json) (fields : List DslField) :
    FailsWith mismatch (checkFieldTypes map part fields) := by
  induction fields with
  | nil => exact failsWith_ok ()
  | cons field rest ih =>
    unfold checkFieldTypes
    split
    · split
      · exact ih
      · simp only [String.append_assoc]
        exact failsWith_error mismatch _
    · exact ih

theorem checkFieldTypes_ne_missing (map : StringMap Json) (fields : List DslField) :
    checkFieldTypes map part fields ≠ .error (missing name) := by
  intro failed
  obtain ⟨text,same⟩ := checkFieldTypes_failsWith map fields _ failed
  exact ne_missing (by decide) (by decide) same.symm

/-- A group without a member. -/
def ungrouped (text : String) : RuuterError := .badRequest ("Missing required_one_of in " ++ text)

theorem checkOneOfGroups_ok {lists : Option (List (List String))} {present : String → Bool} :
    checkOneOfGroups lists part present = .ok () ↔
      ∀ group ∈ lists.getD [], ∃ name ∈ group, present name = true := by
  unfold checkOneOfGroups
  cases found : (lists.getD []).find? fun group => !group.any present with
  | none => simpa using found
  | some group =>
    have member := List.mem_of_find?_eq_some found
    have outside := List.find?_some found
    simp only [reduceCtorEq,false_iff]
    intro all
    obtain ⟨name,inside,held⟩ := all group member
    simp only [Bool.not_eq_true',List.any_eq_false] at outside
    exact absurd held (outside name inside)

theorem checkOneOfGroups_failsWith {lists : Option (List (List String))} {part : String}
    {present : String → Bool} : FailsWith ungrouped (checkOneOfGroups lists part present) := by
  unfold checkOneOfGroups
  split
  · simp only [String.append_assoc]
    exact failsWith_error ungrouped _
  · exact failsWith_ok ()

theorem enforceRequiredOneOf_failsWith : FailsWith ungrouped (enforceRequiredOneOf decl view) := by
  unfold enforceRequiredOneOf
  split
  · exact failsWith_ok ()
  · exact failsWith_bind checkOneOfGroups_failsWith fun _ =>
      failsWith_bind checkOneOfGroups_failsWith fun _ => checkOneOfGroups_failsWith

theorem enforceRequiredOneOf_ne_missing : enforceRequiredOneOf decl view ≠ .error (missing name) := by
  intro failed
  obtain ⟨text,same⟩ := enforceRequiredOneOf_failsWith _ failed
  exact ne_missing (by decide) (by decide) same.symm

end Checks

section Stages

variable (decl : DeclarationStep) (view : RequestView) (method : String)

def bodyStage : Except RuuterError (StringMap Json) :=
  match decl.effectiveAllowedBody with
  | none => pure view.body
  | some allow => do
    let body ← restrict decl view.body allow "body"
    if method = "POST" then requireFields body (requiredBodyFieldNames decl allow)
    match decl.structuredBody with
    | none => pure ()
    | some fields => checkFieldTypes body "body" fields
    pure body

/-- The last steps of the body stage pass a body whose structured fields have their types. -/
theorem typedBody_ok {held body : StringMap Json} :
    (do
      match decl.structuredBody with
        | none => pure ()
        | some fields => checkFieldTypes held "body" fields
      pure held : Except RuuterError (StringMap Json)) = .ok body ↔
      checkFieldTypes held "body" (decl.structuredBody.getD []) = .ok () ∧ body = held := by
  cases decl.structuredBody with
  | none => exact ⟨fun same => ⟨rfl,(Except.ok.inj same).symm⟩,fun given => by rw [given.2]; rfl⟩
  | some fields =>
    simp only [Eff.except_bind_ok,Option.getD_some]
    constructor
    · rintro ⟨_,types,same⟩
      exact ⟨types,(Except.ok.inj same).symm⟩
    · rintro ⟨types,rfl⟩
      exact ⟨(),types,rfl⟩

def queryStage : Except RuuterError (StringMap Json) :=
  match decl.effectiveAllowedParams with
  | none => pure view.query
  | some allow => do
    let kept ← restrict decl (view.query.erase "pathParams") allow "params"
    let query :=
      match view.query.lookup "pathParams" with
      | some saved => kept.insert "pathParams" saved
      | none => kept
    match decl.effectiveAllowedBody with
    | some allowBody =>
      if method = "GET" then requireFields query (requiredBodyFieldNames decl allowBody)
    | none => pure ()
    pure query

def headerStage (traceparent : String) : Except RuuterError (StringMap String) :=
  match decl.effectiveAllowedHeader with
  | none => pure view.headers
  | some allow => do
    let kept ←
      if decl.isStrict then restrict decl view.headers (allow ++ ["traceparent"]) "headers"
      else restrict decl view.headers allow "headers"
    pure (if "traceparent" ∈ kept then kept else kept.insert "traceparent" traceparent)

theorem applyDeclaration_eq (traceparent : String) :
    applyDeclaration decl view method traceparent = (do
      let body ← bodyStage decl view method
      enforceRequiredOneOf decl { view with body }
      let query ← queryStage decl view method
      let headers ← headerStage decl view traceparent
      pure { body, query, headers }) := by
  have branch {α β : Type} (c : Prop) [Decidable c] (a b : Except RuuterError α)
      (f : α → Except RuuterError β) : (if c then a else b) >>= f = if c then a >>= f else b >>= f := by
    split <;> rfl
  unfold applyDeclaration bodyStage queryStage headerStage
  cases decl.effectiveAllowedBody <;> cases decl.effectiveAllowedParams <;>
    cases decl.effectiveAllowedHeader <;> cases decl.structuredBody <;>
    cases view.query.lookup "pathParams" <;> simp only [bind_assoc,pure_bind,branch]

end Stages

section Specs

variable {decl : DeclarationStep} {view : RequestView} {method : String} (structured : Structured decl)
include structured

theorem effectiveAllowedBody_eq : decl.effectiveAllowedBody = decl.structuredBody.map (·.map (·.field)) := by
  unfold DeclarationStep.effectiveAllowedBody
  rw [structured.body]
  rfl

theorem effectiveAllowedParams_eq :
    decl.effectiveAllowedParams = decl.structuredParams.map (·.map (·.field)) := by
  unfold DeclarationStep.effectiveAllowedParams
  rw [structured.params]
  rfl

theorem effectiveAllowedHeader_eq :
    decl.effectiveAllowedHeader = decl.structuredHeaders.map (·.map (·.field)) := by
  unfold DeclarationStep.effectiveAllowedHeader
  rw [structured.header]
  rfl

theorem requiredBodyFieldNames_eq (allow : List String) (body : decl.structuredBody = some fields) :
    requiredBodyFieldNames decl allow = required decl := by
  unfold requiredBodyFieldNames required
  rw [structured.body,body]
  rfl

omit structured in
theorem mem_keptBody (keyed : decl.isStrict = true → ∀ name ∈ view.body, Passes decl .body name) :
    name ∈ keptBody decl view ↔ Present decl view .body name := by
  unfold keptBody
  simp only [Present]
  cases body : decl.structuredBody with
  | none => simp [Passes,body]
  | some fields =>
    cases strict : decl.isStrict with
    | true =>
      simp only [Bool.true_or,if_true]
      exact ⟨fun member => ⟨member,keyed strict name member⟩,fun present => present.1⟩
    | false =>
      cases additive : decl.isAdditive with
      | true => simp [Passes,strict,additive]
      | false => simp [Passes,body,strict,additive,mem_filterStrKeyed,listed]

omit structured in
theorem required_of_none (shape : decl.structuredBody = none) : required decl = [] := by
  unfold required
  rw [shape]
  rfl

omit structured in
/-- The restriction of the body, in terms of the request. -/
theorem restrict_body (shape : decl.structuredBody = some fields) :
    restrict decl view.body (fields.map (·.field)) "body" = .ok kept ↔
      (decl.isStrict = true → ∀ name ∈ view.body, Passes decl .body name) ∧ kept = keptBody decl view := by
  rw [restrict_ok,keptBody,shape]
  refine and_congr_left fun _ => ?_
  constructor
  · intro keys strict name member
    exact .inr (.inr (by rw [shape]; exact keys strict name member))
  · intro keyed strict name member
    rcases keyed strict name member with none | loose | inside
    · cases shape.symm.trans none
    · cases loose.1.symm.trans strict
    · rwa [shape] at inside

/-- The body stage, in terms of the request. -/
theorem bodyStage_ok : bodyStage decl view method = .ok body ↔
    (decl.isStrict = true → ∀ name ∈ view.body, Passes decl .body name) ∧
      (method = "POST" → ∀ name ∈ required decl, name ∈ keptBody decl view) ∧ Typed decl view ∧
      body = keptBody decl view := by
  unfold bodyStage Typed
  rw [effectiveAllowedBody_eq structured]
  cases shape : decl.structuredBody with
  | none =>
    have kept : keptBody decl view = view.body := by
      unfold keptBody
      rw [shape]
    rw [kept,required_of_none shape]
    constructor
    · intro same
      cases same
      exact ⟨fun _ _ _ => .inl shape,by simp,rfl,rfl⟩
    · rintro ⟨_,_,_,rfl⟩
      rfl
  | some fields =>
    simp only [Option.map_some]
    rw [requiredBodyFieldNames_eq structured _ shape,except_bind_ok]
    constructor
    · rintro ⟨held,restricted,rest⟩
      obtain ⟨keyed,rfl⟩ := (restrict_body shape).mp restricted
      by_cases post : method = "POST"
      · rw [if_pos post] at rest
        obtain ⟨_,needed,rest⟩ := except_bind_inv rest
        obtain ⟨_,types,same⟩ := except_bind_inv rest
        cases same
        exact ⟨keyed,fun _ => requireFields_ok.mp needed,types,rfl⟩
      · rw [if_neg post] at rest
        obtain ⟨_,types,same⟩ := except_bind_inv rest
        cases same
        exact ⟨keyed,fun given => absurd given post,types,rfl⟩
    · rintro ⟨keyed,needed,types,rfl⟩
      refine ⟨_,(restrict_body shape).mpr ⟨keyed,rfl⟩,?_⟩
      by_cases post : method = "POST"
      · rw [if_pos post]
        exact except_bind_ok.mpr ⟨(),requireFields_ok.mpr (needed post),except_bind_ok.mpr ⟨(),types,rfl⟩⟩
      · rw [if_neg post]
        exact except_bind_ok.mpr ⟨(),types,rfl⟩

theorem bodyStage_missing : bodyStage decl view method = .error (missing name) ↔
    (decl.isStrict = true → ∀ name ∈ view.body, Passes decl .body name) ∧ method = "POST" ∧
      requireFields (keptBody decl view) (required decl) = .error (missing name) := by
  unfold bodyStage
  rw [effectiveAllowedBody_eq structured]
  cases shape : decl.structuredBody with
  | none =>
    rw [required_of_none shape]
    constructor
    · intro failed
      cases failed
    · rintro ⟨_,_,failed⟩
      cases failed
  | some fields =>
    have unchecked : ∀ held, (do
        checkFieldTypes held "body" fields
        pure held : Except RuuterError (StringMap Json)) ≠ .error (missing name) := by
      intro held failed
      rcases except_bind_error.mp failed with types | ⟨_,_,done⟩
      · exact checkFieldTypes_ne_missing held fields types
      · cases done
    simp only [Option.map_some]
    rw [requiredBodyFieldNames_eq structured _ shape,except_bind_error]
    constructor
    · rintro (refused | ⟨held,restricted,rest⟩)
      · exact absurd refused (restrict_ne_missing view.body)
      · obtain ⟨keyed,rfl⟩ := (restrict_body shape).mp restricted
        by_cases post : method = "POST"
        · rw [if_pos post] at rest
          rcases except_bind_error.mp rest with needed | ⟨_,_,later⟩
          · exact ⟨keyed,post,needed⟩
          · exact absurd later (unchecked _)
        · rw [if_neg post] at rest
          exact absurd rest (unchecked _)
    · rintro ⟨keyed,post,needed⟩
      refine .inr ⟨_,(restrict_body shape).mpr ⟨keyed,rfl⟩,?_⟩
      rw [if_pos post]
      exact except_bind_error.mpr (.inl needed)

omit structured in
/-- The groups are met by what is left of the body and by the query and headers as they came. -/
theorem enforceRequiredOneOf_ok
    (keyed : decl.isStrict = true → ∀ name ∈ view.body, Passes decl .body name) :
    enforceRequiredOneOf decl { view with body := keptBody decl view } = .ok () ↔ Met decl view (groups decl) := by
  unfold enforceRequiredOneOf Met groups
  cases decl.allowlist.bind (·.requiredOneOf) with
  | none => simp
  | some oneOf =>
    simp only [except_bind_ok,List.mem_append,List.mem_map]
    constructor
    · rintro ⟨_,inBody,_,inQuery,inHeaders⟩ demand ((⟨group,member,rfl⟩ | ⟨group,member,rfl⟩) | ⟨group,member,rfl⟩)
      · obtain ⟨name,listed,held⟩ := checkOneOfGroups_ok.mp inBody group member
        exact ⟨name,listed,(mem_keptBody keyed).mp (of_decide_eq_true held)⟩
      · simpa [Present] using checkOneOfGroups_ok.mp inQuery group member
      · simpa [Present] using checkOneOfGroups_ok.mp inHeaders group member
    · intro met
      refine ⟨(),checkOneOfGroups_ok.mpr ?_,(),checkOneOfGroups_ok.mpr ?_,checkOneOfGroups_ok.mpr ?_⟩
      · intro group member
        obtain ⟨name,listed,held⟩ := met (.body,group) (.inl (.inl ⟨group,member,rfl⟩))
        exact ⟨name,listed,decide_eq_true ((mem_keptBody keyed).mpr held)⟩
      · intro group member
        simpa [Present] using met (.query,group) (.inl (.inr ⟨group,member,rfl⟩))
      · intro group member
        simpa [Present] using met (.headers,group) (.inr ⟨group,member,rfl⟩)

omit structured in
theorem mem_keptQuery (keyed : ∀ name ∈ view.query, Passes decl .query name) :
    name ∈ keptQuery decl view ↔ Present decl view .keptQuery name := by
  have saved : ∀ kept : StringMap Json, (name ∈ kept ↔
      (name ∈ view.query ∧ name ≠ "pathParams") ∧ Passes decl .keptQuery name) →
      (name ∈ (match view.query.lookup "pathParams" with
        | some saved => kept.insert "pathParams" saved
        | none => kept) ↔ Present decl view .keptQuery name) := by
    intro kept inside
    simp only [Present]
    cases found : view.query.lookup "pathParams" with
    | some value =>
      have given : "pathParams" ∈ view.query := AList.lookup_isSome.mp (by rw [found]; rfl)
      rw [AList.mem_insert,inside]
      by_cases same : name = "pathParams"
      · subst same
        simp [given,Passes]
      · simp [same]
    | none =>
      have absent : "pathParams" ∉ view.query := AList.lookup_eq_none.mp found
      rw [inside]
      constructor
      · rintro ⟨⟨member,_⟩,passes⟩
        exact ⟨member,passes⟩
      · rintro ⟨member,passes⟩
        exact ⟨⟨member,fun same => absent (same ▸ member)⟩,passes⟩
  unfold keptQuery
  cases shape : decl.structuredParams with
  | none => simp [Present,Passes,shape]
  | some fields =>
    simp only
    apply saved
    cases strict : decl.isStrict with
    | true =>
      simp only [Bool.true_or,if_true,AList.mem_erase]
      constructor
      · rintro ⟨other,member⟩
        rcases keyed name member with none | loose | same | inside
        · cases shape.symm.trans none
        · cases strict.symm.trans loose
        · exact absurd same other
        · exact ⟨⟨member,other⟩,.inr (.inr (.inr inside))⟩
      · rintro ⟨⟨member,other⟩,_⟩
        exact ⟨other,member⟩
    | false =>
      cases additive : decl.isAdditive with
      | true => simp [Passes,strict,additive,and_comm]
      | false =>
        simp only [Bool.or_self,Bool.false_eq_true,if_false,mem_filterStrKeyed,AList.mem_erase]
        constructor
        · rintro ⟨⟨other,member⟩,inside⟩
          exact ⟨⟨member,other⟩,.inr (.inr (.inr (by rw [shape]; exact inside)))⟩
        · rintro ⟨⟨member,other⟩,none | loose | same | inside⟩
          · cases shape.symm.trans none
          · cases additive.symm.trans loose.2
          · exact absurd same other
          · exact ⟨⟨other,member⟩,by rwa [shape] at inside⟩

omit structured in
theorem restrict_query (shape : decl.structuredParams = some fields) :
    (∃ kept, restrict decl (view.query.erase "pathParams") (fields.map (·.field)) "params" = .ok kept ∧
      query = match view.query.lookup "pathParams" with
        | some saved => kept.insert "pathParams" saved
        | none => kept) ↔
      (∀ name ∈ view.query, Passes decl .query name) ∧ query = keptQuery decl view := by
  simp only [restrict_ok,keptQuery,shape]
  constructor
  · rintro ⟨kept,⟨keys,rfl⟩,same⟩
    refine ⟨?_,same⟩
    intro name member
    by_cases strict : decl.isStrict = true
    · by_cases injected : name = "pathParams"
      · exact .inr (.inr (.inl injected))
      · have inside := keys strict name (AList.mem_erase.mpr ⟨injected,member⟩)
        exact .inr (.inr (.inr (by rw [shape]; exact inside)))
    · exact .inr (.inl (Bool.not_eq_true _ ▸ strict))
  · rintro ⟨keyed,same⟩
    refine ⟨_,⟨?_,rfl⟩,same⟩
    intro strict name member
    obtain ⟨other,given⟩ := AList.mem_erase.mp member
    rcases keyed name given with none | loose | injected | inside
    · cases shape.symm.trans none
    · cases loose.symm.trans strict
    · exact absurd injected other
    · rwa [shape] at inside

/-- The check of the query stage: a GET has to bring the required body fields in its query. -/
def queryCheck (decl : DeclarationStep) (view : RequestView) (method : String) : Except RuuterError Unit :=
  if method = "GET" then requireFields (keptQuery decl view) (required decl) else .ok ()

theorem queryStage_some (shape : decl.structuredParams = some fields)
    (keyed : ∀ name ∈ view.query, Passes decl .query name) :
    queryStage decl view method = (queryCheck decl view method).map fun _ => keptQuery decl view := by
  obtain ⟨kept,restricted,same⟩ := (restrict_query shape).mpr ⟨keyed,rfl⟩
  unfold queryStage queryCheck
  rw [effectiveAllowedParams_eq structured,shape]
  simp only [Option.map_some,restricted,effectiveAllowedBody_eq structured]
  simp only [bind,Except.bind,← same]
  cases body : decl.structuredBody with
  | none =>
    rw [required_of_none body]
    simp only [Option.map_none]
    split <;> rfl
  | some held =>
    simp only [Option.map_some,requiredBodyFieldNames_eq structured _ body]
    split
    · cases requireFields (keptQuery decl view) (required decl) <;> rfl
    · rfl

/-- The query stage fails at a key, at a missing field, or not at all. -/
theorem queryStage_cases :
    (∃ text, queryStage decl view method = .error (unexpected text) ∧
      ¬ ∀ name ∈ view.query, Passes decl .query name) ∨
    (∀ name ∈ view.query, Passes decl .query name) ∧ queryStage decl view method =
      (if decl.structuredParams.isSome then queryCheck decl view method else .ok ()).map
        fun _ => keptQuery decl view := by
  cases shape : decl.structuredParams with
  | none =>
    refine .inr ⟨fun _ _ => .inl shape,?_⟩
    unfold queryStage keptQuery
    rw [effectiveAllowedParams_eq structured,shape]
    rfl
  | some fields =>
    by_cases keyed : ∀ name ∈ view.query, Passes decl .query name
    · exact .inr ⟨keyed,queryStage_some structured shape keyed⟩
    · left
      cases restricted : restrict decl (view.query.erase "pathParams") (fields.map (·.field)) "params" with
      | ok kept => exact absurd ((restrict_query shape).mp ⟨kept,restricted,rfl⟩).1 keyed
      | error e =>
        obtain ⟨text,rfl⟩ := restrict_failsWith _ _ restricted
        refine ⟨text,?_,keyed⟩
        unfold queryStage
        rw [effectiveAllowedParams_eq structured,shape]
        simp only [Option.map_some,restricted]
        rfl

theorem headerStage_ok (traceparent : String) : (∃ headers, headerStage decl view traceparent = .ok headers) ↔
    ∀ name ∈ view.headers, Passes decl .headers name := by
  unfold headerStage
  rw [effectiveAllowedHeader_eq structured]
  cases shape : decl.structuredHeaders with
  | none => exact ⟨fun _ _ _ => .inl shape,fun _ => ⟨view.headers,rfl⟩⟩
  | some fields =>
    simp only [Option.map_some]
    cases strict : decl.isStrict with
    | false =>
      simp only [Bool.false_eq_true,if_false,except_bind_ok,restrict_ok]
      exact ⟨fun _ _ _ => .inr (.inl strict),fun _ => ⟨_,_,⟨by simp [strict],rfl⟩,rfl⟩⟩
    | true =>
      simp only [if_true,except_bind_ok,restrict_ok,strict,true_imp_iff]
      constructor
      · rintro ⟨_,kept,⟨keys,_⟩,_⟩ name member
        rcases List.mem_append.mp (keys name member) with inside | injected
        · exact .inr (.inr (.inr (by rw [shape]; exact inside)))
        · exact .inr (.inr (.inl (List.mem_singleton.mp injected)))
      · intro keyed
        refine ⟨_,_,⟨?_,rfl⟩,rfl⟩
        intro name member
        rcases keyed name member with none | loose | injected | inside
        · cases shape.symm.trans none
        · cases strict.symm.trans loose
        · exact List.mem_append_right _ (List.mem_singleton.mpr injected)
        · rw [shape] at inside
          exact List.mem_append_left _ inside

omit structured in
theorem headerStage_failsWith (traceparent : String) :
    FailsWith unexpected (headerStage decl view traceparent) := by
  unfold headerStage
  split
  · exact failsWith_ok _
  · split
    · exact failsWith_bind (restrict_failsWith _) fun _ => failsWith_ok _
    · exact failsWith_bind (restrict_failsWith _) fun _ => failsWith_ok _

omit structured in
theorem met_append {one two : List (Place × List String)} :
    Met decl view (one ++ two) ↔ Met decl view one ∧ Met decl view two :=
  List.forall_mem_append

omit structured in
theorem met_names {names : List String} : Met decl view (names.map fun name => (place,[name])) ↔
    ∀ name ∈ names, Present decl view place name := by
  simp only [Met,List.forall_mem_map,List.mem_singleton,exists_eq_left]

omit structured in
theorem met_guarded {condition : Prop} [Decidable condition] {names : List (Place × List String)} :
    Met decl view (if condition then names else []) ↔ (condition → Met decl view names) := by
  split
  · rename_i holds
    exact ⟨fun met _ => met,fun met => met holds⟩
  · rename_i fails
    exact iff_of_true (fun _ inside => by cases inside) fun holds => absurd holds fails

omit structured in
theorem queryCheck_ok :
    (if decl.structuredParams.isSome then queryCheck decl view method else .ok ()) = .ok () ↔
      (method = "GET" ∧ decl.structuredParams.isSome = true →
        ∀ name ∈ required decl, name ∈ keptQuery decl view) := by
  unfold queryCheck
  by_cases some : decl.structuredParams.isSome = true
  · by_cases get : method = "GET"
    · simp only [some,get,and_self,true_imp_iff,if_true,requireFields_ok]
    · simp only [some,get,false_and,false_imp_iff,if_true,if_false]
  · simp only [some,and_false,false_imp_iff,Bool.false_eq_true,if_false]

omit structured in
theorem queryCheck_missing :
    (if decl.structuredParams.isSome then queryCheck decl view method else .ok ()) = .error (missing name) ↔
      method = "GET" ∧ decl.structuredParams.isSome = true ∧
        requireFields (keptQuery decl view) (required decl) = .error (missing name) := by
  unfold queryCheck
  by_cases some : decl.structuredParams.isSome = true
  · by_cases get : method = "GET"
    · simp only [some,get,true_and,if_true]
    · simp only [some,get,false_and,if_true,if_false,reduceCtorEq]
  · simp only [some,false_and,and_false,if_false,reduceCtorEq,Bool.false_eq_true]

omit structured in
/-- The demands of a declaration by the stages that check them. -/
theorem met_demands_iff (body : decl.isStrict = true → ∀ name ∈ view.body, Passes decl .body name)
    (query : ∀ name ∈ view.query, Passes decl .query name) :
    Met decl view (demands decl method) ↔
      (method = "POST" → ∀ name ∈ required decl, name ∈ keptBody decl view) ∧
      Met decl view (groups decl) ∧
      (if decl.structuredParams.isSome then queryCheck decl view method else .ok ()) = .ok () := by
  unfold demands
  rw [met_append,met_append,met_guarded,met_guarded,met_names,met_names,queryCheck_ok,and_assoc]
  simp only [mem_keptBody body,mem_keptQuery query]

/-- A request is accepted when its keys and types fit and every demand is met. -/
theorem applyDeclaration_ok_iff (traceparent : String) :
    (∃ out, applyDeclaration decl view method traceparent = .ok out) ↔
      WellKeyed decl view ∧ Typed decl view ∧ Met decl view (demands decl method) := by
  rw [applyDeclaration_eq]
  constructor
  · rintro ⟨out,accepted⟩
    obtain ⟨body,inBody,rest⟩ := except_bind_inv accepted
    obtain ⟨keyedBody,posted,types,rfl⟩ := (bodyStage_ok structured).mp inBody
    obtain ⟨_,inGroups,rest⟩ := except_bind_inv rest
    obtain ⟨query,inQuery,rest⟩ := except_bind_inv rest
    obtain ⟨headers,inHeaders,_⟩ := except_bind_inv rest
    have keyedHeaders := (headerStage_ok structured traceparent).mp ⟨headers,inHeaders⟩
    have grouped := (enforceRequiredOneOf_ok keyedBody).mp inGroups
    rcases queryStage_cases structured with ⟨text,failed,_⟩ | ⟨keyedQuery,checked⟩
    · cases failed.symm.trans inQuery
    obtain ⟨_,sought,_⟩ := except_map_ok.mp (checked.symm.trans inQuery)
    exact ⟨⟨keyedBody,keyedQuery,keyedHeaders⟩,types,
      (met_demands_iff keyedBody keyedQuery).mpr ⟨posted,grouped,sought⟩⟩
  · rintro ⟨keyed,types,met⟩
    obtain ⟨posted,grouped,sought⟩ := (met_demands_iff keyed.body keyed.query).mp met
    obtain ⟨headers,inHeaders⟩ := (headerStage_ok structured traceparent).mpr keyed.headers
    rcases queryStage_cases structured with ⟨text,failed,unkeyed⟩ | ⟨_,checked⟩
    · exact absurd keyed.query unkeyed
    rw [sought] at checked
    refine ⟨⟨keptBody decl view,keptQuery decl view,headers⟩,
      except_bind_ok.mpr ⟨_,(bodyStage_ok structured).mpr ⟨keyed.body,posted,types,rfl⟩,?_⟩⟩
    refine except_bind_ok.mpr ⟨(),(enforceRequiredOneOf_ok keyed.body).mpr grouped,?_⟩
    exact except_bind_ok.mpr ⟨_,checked,except_bind_ok.mpr ⟨headers,inHeaders,rfl⟩⟩

/-- A field is reported as missing from the body of a POST or from the query of a GET. -/
theorem applyDeclaration_missing_iff (traceparent : String) :
    applyDeclaration decl view method traceparent = .error (missing name) ↔
      (decl.isStrict = true → ∀ name ∈ view.body, Passes decl .body name) ∧
        ((method = "POST" ∧ requireFields (keptBody decl view) (required decl) = .error (missing name)) ∨
          (method = "GET" ∧ decl.structuredParams.isSome = true ∧ Typed decl view ∧
            Met decl view (groups decl) ∧ (∀ name ∈ view.query, Passes decl .query name) ∧
            requireFields (keptQuery decl view) (required decl) = .error (missing name))) := by
  have headers_ne : headerStage decl view traceparent ≠ .error (missing name) := by
    intro failed
    obtain ⟨text,same⟩ := headerStage_failsWith traceparent _ failed
    exact ne_missing (by decide) (by decide) same.symm
  rw [applyDeclaration_eq,except_bind_error,bodyStage_missing structured]
  constructor
  · rintro (⟨keyed,posted⟩ | ⟨body,inBody,rest⟩)
    · exact ⟨keyed,.inl posted⟩
    obtain ⟨keyed,_,types,rfl⟩ := (bodyStage_ok structured).mp inBody
    rcases except_bind_error.mp rest with ungrouped | ⟨_,grouped,rest⟩
    · exact absurd ungrouped enforceRequiredOneOf_ne_missing
    rcases except_bind_error.mp rest with failed | ⟨query,_,rest⟩
    · rcases queryStage_cases structured with ⟨text,refused,_⟩ | ⟨keyedQuery,checked⟩
      · have same := Except.error.inj (refused.symm.trans failed)
        exact absurd same (ne_missing (by decide) (by decide))
      obtain ⟨get,some,sought⟩ := queryCheck_missing.mp (except_map_error.mp (checked.symm.trans failed))
      exact ⟨keyed,.inr ⟨get,some,types,(enforceRequiredOneOf_ok keyed).mp grouped,keyedQuery,sought⟩⟩
    · rcases except_bind_error.mp rest with refused | ⟨_,_,done⟩
      · exact absurd refused headers_ne
      · cases done
  · rintro ⟨keyed,posted | ⟨get,some,types,grouped,keyedQuery,sought⟩⟩
    · exact .inl ⟨keyed,posted⟩
    have notPost : method = "POST" → ∀ name ∈ required decl, name ∈ keptBody decl view := by
      rintro rfl
      exact absurd get (by decide)
    refine .inr ⟨_,(bodyStage_ok structured).mpr ⟨keyed,notPost,types,rfl⟩,?_⟩
    refine except_bind_error.mpr (.inr ⟨(),(enforceRequiredOneOf_ok keyed).mpr grouped,?_⟩)
    refine except_bind_error.mpr (.inl ?_)
    rcases queryStage_cases structured with ⟨text,_,unkeyed⟩ | ⟨_,checked⟩
    · exact absurd keyedQuery unkeyed
    rw [checked]
    exact except_map_error.mpr (queryCheck_missing.mpr ⟨get,some,sought⟩)

end Specs

section Refusals

variable {decl : DeclarationStep} {view : RequestView} {method : String}

theorem requireFields_failsWith {map : StringMap Json} :
    FailsWith RuuterError.badRequest (requireFields map names) := by
  unfold requireFields
  split
  · exact failsWith_error RuuterError.badRequest _
  · exact failsWith_ok ()

theorem restrict_badRequest {map : StringMap α} :
    FailsWith RuuterError.badRequest (restrict decl map allow part) :=
  failsWith_mono (restrict_failsWith map) fun _ => ⟨_,rfl⟩

theorem bodyStage_badRequest : FailsWith RuuterError.badRequest (bodyStage decl view method) := by
  have types (body : StringMap Json) (fields : List DslField) :
      FailsWith RuuterError.badRequest (checkFieldTypes body "body" fields) :=
    failsWith_mono (checkFieldTypes_failsWith body fields) fun _ => ⟨_,rfl⟩
  unfold bodyStage
  split
  · exact failsWith_ok _
  · refine failsWith_bind restrict_badRequest fun body => ?_
    cases decl.structuredBody with
    | none =>
      simp only
      split
      · exact failsWith_bind requireFields_failsWith fun _ => failsWith_ok _
      · exact failsWith_ok _
    | some fields =>
      have later := failsWith_bind (types body fields) fun _ => failsWith_ok body
      simp only
      split
      · exact failsWith_bind requireFields_failsWith fun _ => later
      · exact later

theorem queryStage_badRequest : FailsWith RuuterError.badRequest (queryStage decl view method) := by
  unfold queryStage
  split
  · exact failsWith_ok _
  · refine failsWith_bind restrict_badRequest fun kept => ?_
    simp only
    split
    · split
      · exact failsWith_bind requireFields_failsWith fun _ => failsWith_ok _
      · exact failsWith_ok _
    · exact failsWith_ok _

/-- Every refusal is a bad request. -/
theorem applyDeclaration_badRequest (traceparent : String) :
    FailsWith RuuterError.badRequest (applyDeclaration decl view method traceparent) := by
  have groups (view : RequestView) : FailsWith RuuterError.badRequest (enforceRequiredOneOf decl view) :=
    failsWith_mono enforceRequiredOneOf_failsWith fun _ => ⟨_,rfl⟩
  have headers : FailsWith RuuterError.badRequest (headerStage decl view traceparent) :=
    failsWith_mono (headerStage_failsWith traceparent) fun _ => ⟨_,rfl⟩
  rw [applyDeclaration_eq]
  exact failsWith_bind bodyStage_badRequest fun _ => failsWith_bind (groups _) fun _ =>
    failsWith_bind queryStage_badRequest fun _ => failsWith_bind headers fun _ => failsWith_ok _

end Refusals

end Ruuter.OpenApi
