import Ruuter.Satisfiable

/-! The case of header names in declarations. The headers of a request are in lower case and are
looked up as they are written, so a declared name with a letter counts in one of its spellings only. -/
namespace Ruuter
open OpenApi

/-- Two spellings of one header name. -/
def SameHeader (name other : String) : Prop := Text.toAsciiLowercase name = Text.toAsciiLowercase other

/-- The name has one spelling: it has no letter. -/
def Caseless (name : String) : Prop := ∀ other, SameHeader name other → other = name

/-- An allowlist whose header names are spelled in another way. -/
structure RecasedAllowlist (allowlist other : Allowlist) : Prop where
  body : other.body = allowlist.body
  params : other.params = allowlist.params
  headers : Option.Rel
    (List.Forall₂ fun field changed => SameHeader field.field changed.field ∧
      changed = { field with field := changed.field })
    allowlist.headers other.headers
  requiredOneOf : Option.Rel
    (fun groups changed => changed.body = groups.body ∧ changed.params = groups.params ∧
      Option.Rel (List.Forall₂ (List.Forall₂ SameHeader)) groups.headers changed.headers)
    allowlist.requiredOneOf other.requiredOneOf

/-- A declaration whose header names are spelled in another way, each of them on its own. -/
structure Recased (decl other : DeclarationStep) : Prop where
  allowedHeader : Option.Rel (List.Forall₂ SameHeader) decl.allowedHeader other.allowedHeader
  allowlist : Option.Rel RecasedAllowlist decl.allowlist other.allowlist
  rest : other = { decl with allowedHeader := other.allowedHeader, allowlist := other.allowlist }

/-- The spelling of the header names decides nothing about a request: neither whether the DSL or a
guard accepts it, nor which headers the DSL sees. -/
def CaseInsensitive (decl : DeclarationStep) (view : RequestView) (method traceparent : String) : Prop :=
  ∀ other, Recased decl other →
    ((∃ out, applyDeclaration decl view method traceparent = .ok out) ↔
      ∃ out, applyDeclaration other view method traceparent = .ok out) ∧
    (∀ out changed, applyDeclaration decl view method traceparent = .ok out →
      applyDeclaration other view method traceparent = .ok changed →
      ∀ name, out.headers.lookup name = changed.headers.lookup name) ∧
    (enforceGuardDeclaration decl view method = .ok () ↔ enforceGuardDeclaration other view method = .ok ())

section Condition
variable (decl : DeclarationStep) (view : RequestView)

/-- The groups of the headers are met, for a reading of the declared names. -/
def GroupsMatched (reads : String → String → Prop) : Prop :=
  ∀ group ∈ decl.oneOf .headers, ∃ name ∈ group, ∃ header ∈ view.headers, reads name header

/-- A header is on the list, for a reading of the declared names. -/
def OnList (reads : String → String → Prop) (header : String) : Prop :=
  ∀ names, decl.allowed .headers = some names → ∃ name ∈ names, reads name header

/-- The headers pass the declaration, for a reading of the declared names. -/
structure HeadersPass (reads : String → String → Prop) : Prop where
  known : decl.isStrict = true → ∀ header ∈ view.headers, OnList decl reads header ∨ header = "traceparent"
  groups : GroupsMatched decl view reads

/-- A declared name without a letter and the header of that name. -/
def Unlettered (name header : String) : Prop := Caseless name ∧ name = header

/-- The declaration with every header name respelled. -/
def respell (spell : String → String) (decl : DeclarationStep) : DeclarationStep :=
  { decl with
    allowedHeader := decl.allowedHeader.map (·.map spell)
    allowlist := decl.allowlist.map fun allowlist =>
      { allowlist with
        headers := allowlist.headers.map (·.map fun field => { field with field := spell field.field })
        requiredOneOf := allowlist.requiredOneOf.map fun groups =>
          { groups with headers := groups.headers.map (·.map (·.map spell)) } } }

def inLowerCase (decl : DeclarationStep) : DeclarationStep := respell Text.toAsciiLowercase decl

/-- Names without a letter decide the fate of the headers: the checks pass by them alone, and so
does each header that a filter keeps. -/
structure LettersIdle : Prop where
  pass : HeadersPass decl view Unlettered
  kept : decl.unfiltered = false → ∀ header ∈ view.headers, OnList decl SameHeader header →
    OnList decl Unlettered header ∨ header = "traceparent"

end Condition

section Spellings

theorem sameHeader_lower (name : String) : SameHeader name (Text.toAsciiLowercase name) :=
  (Text.toAsciiLowercase_idem name).symm

open Classical in
/-- A spelling that no header of a request has, where there is one. -/
noncomputable def odd (name : String) : String :=
  if given : ∃ other, SameHeader name other ∧ Text.toAsciiLowercase other ≠ other then given.choose else name

theorem sameHeader_odd (name : String) : SameHeader name (odd name) := by
  unfold odd
  split
  · rename_i given
    exact given.choose_spec.1
  · rfl

theorem odd_caseless (caseless : Caseless name) : odd name = name := caseless _ (sameHeader_odd name)

theorem caseless_of_odd (lower : Text.toAsciiLowercase (odd name) = odd name) : Caseless name := by
  unfold odd at lower
  split at lower
  · rename_i given
    exact absurd lower given.choose_spec.2
  · rename_i none
    have fixed {other : String} (same : SameHeader name other) : Text.toAsciiLowercase other = other := by
      by_contra moved
      exact none ⟨other,same,moved⟩
    intro other same
    exact (fixed same).symm.trans (same.symm.trans (fixed rfl))

theorem forall₂_map {R : α → β → Prop} {f : α → β} (related : ∀ a, R a (f a)) (items : List α) :
    List.Forall₂ R items (items.map f) := by
  induction items with
  | nil => exact .nil
  | cons a rest ih => exact .cons (related a) ih

theorem rel_map {R : α → β → Prop} {f : α → β} (related : ∀ a, R a (f a)) (given : Option α) :
    Option.Rel R given (given.map f) := by
  cases given with
  | none => exact .none
  | some a => exact .some (related a)

theorem recased_respell {spell : String → String} (same : ∀ name, SameHeader name (spell name))
    (decl : DeclarationStep) : Recased decl (respell spell decl) where
  allowedHeader := rel_map (forall₂_map same) _
  allowlist := rel_map (fun _ =>
    { body := rfl
      params := rfl
      headers := rel_map (forall₂_map fun field => ⟨same field.field,rfl⟩) _
      requiredOneOf := rel_map (fun _ => ⟨rfl,rfl,rel_map (forall₂_map (forall₂_map same)) _⟩) _ }) _
  rest := rfl

end Spellings
section Alike
variable {decl other : DeclarationStep} {view : RequestView} {method : String}

/-- Two declarations that differ in their header names only. -/
structure AlikeButHeaders (decl other : DeclarationStep) : Prop where
  strict : decl.isStrict = other.isStrict
  additive : decl.isAdditive = other.isAdditive
  allowed : ∀ part, part ≠ .headers → decl.allowed part = other.allowed part
  oneOf : ∀ part, part ≠ .headers → decl.oneOf part = other.oneOf part
  structuredBody : decl.structuredBody = other.structuredBody
  requires : decl.requires = other.requires

theorem AlikeButHeaders.symm (alike : AlikeButHeaders decl other) : AlikeButHeaders other decl :=
  ⟨alike.strict.symm,alike.additive.symm,fun part apart => (alike.allowed part apart).symm,
    fun part apart => (alike.oneOf part apart).symm,alike.structuredBody.symm,alike.requires.symm⟩

theorem AlikeButHeaders.trans {third : DeclarationStep} (alike : AlikeButHeaders decl other)
    (later : AlikeButHeaders other third) : AlikeButHeaders decl third :=
  ⟨alike.strict.trans later.strict,alike.additive.trans later.additive,
    fun part apart => (alike.allowed part apart).trans (later.allowed part apart),
    fun part apart => (alike.oneOf part apart).trans (later.oneOf part apart),
    alike.structuredBody.trans later.structuredBody,alike.requires.trans later.requires⟩

theorem AlikeButHeaders.stays (alike : AlikeButHeaders decl other) (part : Section) (apart : part ≠ .headers) :
    Stays decl part name ↔ Stays other part name := by
  unfold Stays DeclarationStep.unfiltered
  rw [alike.strict,alike.additive,alike.allowed part apart]

/-- The parts of an allowlist that are not about headers stay. -/
theorem Recased.sections (recased : Recased decl other) :
    decl.structuredBody = other.structuredBody ∧ decl.structuredParams = other.structuredParams ∧
      ∀ part, part ≠ .headers → decl.oneOf part = other.oneOf part := by
  unfold DeclarationStep.structuredBody DeclarationStep.structuredParams DeclarationStep.oneOf
  have lists := recased.allowlist
  generalize decl.allowlist = allowlist at lists
  generalize other.allowlist = changed at lists
  cases lists with
  | none => exact ⟨rfl,rfl,fun _ _ => rfl⟩
  | @some a b lists =>
    refine ⟨lists.body.symm,lists.params.symm,?_⟩
    have groups := lists.requiredOneOf
    intro part apart
    simp only [Option.bind_some]
    generalize a.requiredOneOf = groups at groups
    generalize b.requiredOneOf = changedGroups at groups
    cases groups with
    | none => rfl
    | some groups =>
      obtain ⟨body,params,_⟩ := groups
      cases part with
      | body => simp only [body]
      | params => simp only [params]
      | headers => exact absurd rfl apart

theorem Recased.alike (recased : Recased decl other) : AlikeButHeaders decl other := by
  obtain ⟨body,params,oneOf⟩ := recased.sections
  have legacy {α : Type} (f : DeclarationStep → α)
      (kept : ∀ header allowlist, f { decl with allowedHeader := header, allowlist } = f decl) : f decl = f other := by
    rw [recased.rest]
    exact (kept _ _).symm
  have lists : decl.effectiveAllowedBody = other.effectiveAllowedBody := by
    rw [effectiveAllowedBody_or,effectiveAllowedBody_or,body,legacy (·.allowedBody) fun _ _ => rfl]
  refine ⟨legacy _ fun _ _ => rfl,legacy _ fun _ _ => rfl,?_,oneOf,body,?_⟩
  · rintro (_ | _ | _) apart
    · exact lists
    · show decl.allowedParams.or (decl.structuredParams.map _) = other.allowedParams.or (other.structuredParams.map _)
      rw [params,legacy (·.allowedParams) fun _ _ => rfl]
    · exact absurd rfl apart
  · unfold DeclarationStep.requires requiredBodyFieldNames
    rw [lists,body,legacy (·.allowedBody) fun _ _ => rfl]

theorem headersPass_of_accepts (accepts : Accepts decl view method) : HeadersPass decl view Eq where
  known strict header member := by
    cases shape : decl.allowed .headers with
    | none => exact .inl fun names same => by cases shape.symm.trans same
    | some names =>
      rcases accepts.known strict .headers names shape header member with listed | injected
      · exact .inl fun other same => by cases shape.symm.trans same; exact ⟨header,listed,rfl⟩
      · exact .inr (Option.some.inj injected).symm
  groups group member := by
    obtain ⟨name,inside,held⟩ := accepts.incoming .headers (by decide) group member
    exact ⟨name,inside,name,held,rfl⟩

/-- Declarations that differ in their header names accept the same requests, the headers apart. -/
theorem AlikeButHeaders.accepts (alike : AlikeButHeaders decl other) (accepts : Accepts decl view method)
    (pass : HeadersPass other view Eq) : Accepts other view method where
  known strict part names shape name held := by
    by_cases apart : part = .headers
    · subst apart
      rcases pass.known strict name held with listed | rfl
      · obtain ⟨_,inside,rfl⟩ := listed names shape
        exact .inl inside
      · exact .inr rfl
    · exact accepts.known (alike.strict.trans strict) part names ((alike.allowed part apart).trans shape) name held
  post given name needed := by
    have held := accepts.post given name (by rw [alike.requires]; exact needed)
    exact ⟨held.1,(alike.stays .body (by decide)).mp held.2⟩
  types field member declared value typed found stays :=
    accepts.types field (by rw [alike.structuredBody]; exact member) declared value typed found
      ((alike.stays .body (by decide)).mpr stays)
  body group member := by
    obtain ⟨name,inside,held,stays⟩ := accepts.body group (by rw [alike.oneOf .body (by decide)]; exact member)
    exact ⟨name,inside,held,(alike.stays .body (by decide)).mp stays⟩
  incoming part other group member := by
    by_cases apart : part = .headers
    · subst apart
      obtain ⟨name,inside,_,held,rfl⟩ := pass.groups group member
      exact ⟨name,inside,held⟩
    · exact accepts.incoming part other group (by rw [alike.oneOf part apart]; exact member)
  get given listed name needed := by
    have held := accepts.get given (by rw [alike.allowed .params (by decide)]; exact listed) name
      (by rw [alike.requires]; exact needed)
    exact ⟨held.1,(alike.stays .params (by decide)).mp held.2⟩

theorem groupsMatched_of_guard (accepts : GuardAccepts decl view method) : GroupsMatched decl view Eq := by
  intro group member
  obtain ⟨name,inside,held⟩ := accepts.groups .headers group member
  exact ⟨name,inside,name,held,rfl⟩

theorem AlikeButHeaders.guardAccepts (alike : AlikeButHeaders decl other) (accepts : GuardAccepts decl view method)
    (matched : GroupsMatched other view Eq) : GuardAccepts other view method where
  post given name needed := accepts.post given name (by rw [alike.requires]; exact needed)
  types field member := accepts.types field (by rw [alike.structuredBody]; exact member)
  get given listed name needed := accepts.get given (by rw [alike.allowed .params (by decide)]; exact listed) name
    (by rw [alike.requires]; exact needed)
  groups part group member := by
    by_cases apart : part = .headers
    · subst apart
      obtain ⟨name,inside,_,held,rfl⟩ := matched group member
      exact ⟨name,inside,held⟩
    · exact accepts.groups part group (by rw [alike.oneOf part apart]; exact member)

end Alike

section Readings
variable {decl other : DeclarationStep} {view : RequestView} {reads seen : String → String → Prop}

theorem forall₂_names {fields changed : List DslField}
    (pairs : List.Forall₂ (fun field changed => SameHeader field.field changed.field ∧
      changed = { field with field := changed.field }) fields changed) :
    List.Forall₂ SameHeader (fields.map (·.field)) (changed.map (·.field)) := by
  induction pairs with
  | nil => exact .nil
  | cons pair _ ih => exact .cons pair.1 ih

theorem Recased.allowed (recased : Recased decl other) :
    Option.Rel (List.Forall₂ SameHeader) (decl.allowed .headers) (other.allowed .headers) := by
  show Option.Rel _ (decl.allowedHeader.or ((decl.allowlist.bind (·.headers)).map _))
    (other.allowedHeader.or ((other.allowlist.bind (·.headers)).map _))
  have flat := recased.allowedHeader
  have lists := recased.allowlist
  generalize decl.allowedHeader = header at flat
  generalize other.allowedHeader = changedHeader at flat
  generalize decl.allowlist = allowlist at lists
  generalize other.allowlist = changed at lists
  cases flat with
  | some names => exact .some names
  | none =>
    cases lists with
    | none => exact .none
    | @some a b lists =>
      have fields := lists.headers
      simp only [Option.bind_some,Option.none_or]
      generalize a.headers = headers at fields
      generalize b.headers = changedHeaders at fields
      cases fields with
      | none => exact .none
      | some fields => exact .some (forall₂_names fields)

theorem Recased.oneOf (recased : Recased decl other) :
    List.Forall₂ (List.Forall₂ SameHeader) (decl.oneOf .headers) (other.oneOf .headers) := by
  unfold DeclarationStep.oneOf
  have lists := recased.allowlist
  generalize decl.allowlist = allowlist at lists
  generalize other.allowlist = changed at lists
  cases lists with
  | none => exact .nil
  | @some a b lists =>
    have groups := lists.requiredOneOf
    simp only [Option.bind_some]
    generalize a.requiredOneOf = groups at groups
    generalize b.requiredOneOf = changedGroups at groups
    cases groups with
    | none => exact .nil
    | @some o p groups =>
      have headers := groups.2.2
      simp only
      generalize o.headers = headers at headers
      generalize p.headers = changedHeaders at headers
      cases headers with
      | none => exact .nil
      | some pairs => exact pairs

/-- A reading of the one declaration carries over to the other. -/
theorem Recased.groupsMatched (recased : Recased decl other)
    (carries : ∀ name spelled, SameHeader name spelled →
      ∀ header ∈ view.headers, reads name header → seen spelled header)
    (matched : GroupsMatched decl view reads) : GroupsMatched other view seen := by
  intro group member
  obtain ⟨before,given,pairs⟩ := Assoc.exists_of_forall₂ recased.oneOf.flip member
  obtain ⟨name,inside,header,held,read⟩ := matched before given
  obtain ⟨spelled,there,same⟩ := Assoc.exists_of_forall₂ pairs inside
  exact ⟨spelled,there,header,held,carries name spelled same header held read⟩

theorem Recased.onList (recased : Recased decl other)
    (carries : ∀ name spelled, SameHeader name spelled → reads name header → seen spelled header)
    (listed : OnList decl reads header) : OnList other seen header := by
  intro names shape
  have lists := recased.allowed
  rw [shape] at lists
  generalize given : decl.allowed .headers = allowed at lists
  cases lists with
  | some pairs =>
    obtain ⟨name,inside,read⟩ := listed _ given
    obtain ⟨spelled,there,same⟩ := Assoc.exists_of_forall₂ pairs inside
    exact ⟨spelled,there,carries name spelled same read⟩

theorem Recased.headersPass (recased : Recased decl other)
    (carries : ∀ name spelled, SameHeader name spelled →
      ∀ header ∈ view.headers, reads name header → seen spelled header)
    (pass : HeadersPass decl view reads) : HeadersPass other view seen where
  known strict header member := by
    refine (pass.known (recased.alike.strict.trans strict) header member).imp_left ?_
    exact recased.onList fun name spelled same => carries name spelled same header member
  groups := recased.groupsMatched carries pass.groups

end Readings
section Symmetry

theorem rel_symm {R : α → β → Prop} {S : β → α → Prop} (turn : ∀ a b, R a b → S b a) {given : Option α}
    {other : Option β} (related : Option.Rel R given other) : Option.Rel S other given := by
  cases related with
  | none => exact .none
  | some held => exact .some (turn _ _ held)

theorem forall₂_symm {R : α → β → Prop} {S : β → α → Prop} (turn : ∀ a b, R a b → S b a) {items : List α}
    {others : List β} (related : List.Forall₂ R items others) : List.Forall₂ S others items :=
  related.flip.imp fun _ _ => turn _ _

theorem rel_self {R : α → α → Prop} (self : ∀ a, R a a) (given : Option α) : Option.Rel R given given := by
  cases given with
  | none => exact .none
  | some a => exact .some (self a)

theorem forall₂_self {R : α → α → Prop} (self : ∀ a, R a a) (items : List α) : List.Forall₂ R items items :=
  List.forall₂_same.mpr fun a _ => self a

theorem SameHeader.refl (name : String) : SameHeader name name := rfl

theorem Recased.refl (decl : DeclarationStep) : Recased decl decl where
  allowedHeader := rel_self (forall₂_self SameHeader.refl) _
  allowlist := rel_self (fun _ =>
    { body := rfl
      params := rfl
      headers := rel_self (forall₂_self fun field => ⟨rfl,by cases field; rfl⟩) _
      requiredOneOf := rel_self (fun _ => ⟨rfl,rfl,rel_self (forall₂_self (forall₂_self SameHeader.refl)) _⟩) _ }) _
  rest := rfl

theorem RecasedAllowlist.symm (recased : RecasedAllowlist a b) : RecasedAllowlist b a where
  body := recased.body.symm
  params := recased.params.symm
  headers := by
    refine rel_symm (fun _ _ => forall₂_symm fun field changed pair => ⟨pair.1.symm,?_⟩) recased.headers
    rw [pair.2]
    cases field
    rfl
  requiredOneOf := by
    refine rel_symm (fun groups changed pair => ⟨pair.1.symm,pair.2.1.symm,?_⟩) recased.requiredOneOf
    exact rel_symm (fun _ _ => forall₂_symm fun _ _ => forall₂_symm fun _ _ => Eq.symm) pair.2.2

theorem Recased.symm {decl other : DeclarationStep} (recased : Recased decl other) : Recased other decl where
  allowedHeader := rel_symm (fun _ _ => forall₂_symm fun _ _ => Eq.symm) recased.allowedHeader
  allowlist := rel_symm (fun _ _ => RecasedAllowlist.symm) recased.allowlist
  rest := by
    conv_rhs => rw [recased.rest]

end Symmetry

section Respelled
variable {decl : DeclarationStep} {view : RequestView} {spell : String → String} {reads seen : String → String → Prop}

theorem respell_allowed (spell : String → String) (decl : DeclarationStep) :
    (respell spell decl).allowed .headers = (decl.allowed .headers).map (·.map spell) := by
  have headers (decl : DeclarationStep) : decl.allowed .headers =
      decl.allowedHeader.or ((decl.allowlist.bind (·.headers)).map fun fields => fields.map (·.field)) := rfl
  rw [headers,headers,respell]
  cases decl.allowedHeader with
  | some names => rfl
  | none =>
    cases decl.allowlist with
    | none => rfl
    | some allowlist =>
      simp only [Option.map_none,Option.none_or,Option.map_some,Option.bind_some]
      cases allowlist.headers with
      | none => rfl
      | some fields => simp

theorem respell_oneOf (spell : String → String) (decl : DeclarationStep) :
    (respell spell decl).oneOf .headers = (decl.oneOf .headers).map (·.map spell) := by
  unfold DeclarationStep.oneOf respell
  cases decl.allowlist with
  | none => rfl
  | some allowlist =>
    simp only [Option.map_some,Option.bind_some]
    cases allowlist.requiredOneOf with
    | none => rfl
    | some groups =>
      simp only [Option.map_some]
      cases groups.headers <;> rfl

theorem onList_respell :
    OnList (respell spell decl) reads header ↔ OnList decl (fun name => reads (spell name)) header := by
  unfold OnList
  rw [respell_allowed]
  cases decl.allowed .headers with
  | none => simp
  | some names => simp

theorem groupsMatched_respell :
    GroupsMatched (respell spell decl) view reads ↔ GroupsMatched decl view fun name => reads (spell name) := by
  unfold GroupsMatched
  rw [respell_oneOf]
  simp

theorem OnList.imp (carries : ∀ name, reads name header → seen name header) (listed : OnList decl reads header) :
    OnList decl seen header := by
  intro names shape
  obtain ⟨name,inside,read⟩ := listed names shape
  exact ⟨name,inside,carries name read⟩

theorem GroupsMatched.imp (carries : ∀ name, ∀ header ∈ view.headers, reads name header → seen name header)
    (matched : GroupsMatched decl view reads) : GroupsMatched decl view seen := by
  intro group member
  obtain ⟨name,inside,header,held,read⟩ := matched group member
  exact ⟨name,inside,header,held,carries name header held read⟩

theorem headersPass_respell :
    HeadersPass (respell spell decl) view reads ↔ HeadersPass decl view fun name => reads (spell name) := by
  constructor
  · intro pass
    exact ⟨fun strict header member => (pass.known strict header member).imp_left onList_respell.mp,
      groupsMatched_respell.mp pass.groups⟩
  · intro pass
    exact ⟨fun strict header member => (pass.known strict header member).imp_left onList_respell.mpr,
      groupsMatched_respell.mpr pass.groups⟩

theorem HeadersPass.imp (carries : ∀ name, ∀ header ∈ view.headers, reads name header → seen name header)
    (pass : HeadersPass decl view reads) : HeadersPass decl view seen :=
  ⟨fun strict header member => (pass.known strict header member).imp_left
    (OnList.imp fun name => carries name header member),pass.groups.imp carries⟩

end Respelled
section Law
variable {decl other : DeclarationStep} {view : RequestView} {method traceparent : String}

/-- What the headers of a request make of the three readings. -/
theorem lower_reads (decoded : Decoded view traceparent) (name : String) (header : String)
    (member : header ∈ view.headers) :
    Text.toAsciiLowercase name = header ↔ SameHeader name header := by
  unfold SameHeader
  rw [decoded.lower header member]

theorem odd_reads (decoded : Decoded view traceparent) (name : String) (header : String)
    (member : header ∈ view.headers) :
    odd name = header ↔ Unlettered name header := by
  constructor
  · rintro rfl
    have caseless := caseless_of_odd (decoded.lower _ member)
    exact ⟨caseless,(odd_caseless caseless).symm⟩
  · rintro ⟨caseless,rfl⟩
    exact odd_caseless caseless

/-- A name without a letter is read in every spelling, that is, in its only one. -/
theorem unlettered_reads (name spelled : String) (same : SameHeader name spelled) (header : String)
    (read : Unlettered name header) : spelled = header :=
  (read.1 spelled same).trans read.2

/-- A header is seen behind the declaration when it is on the list, or when nothing is filtered. -/
theorem lookup_seen (decl : DeclarationStep) (view : RequestView) (traceparent : String)
    (apart : name ≠ "traceparent") : (returned decl view traceparent).headers.lookup name = some value ↔
      view.headers.lookup name = some value ∧ (decl.unfiltered = true ∨ OnList decl Eq name) := by
  have kept : (decl.unfiltered = true ∨ OnList decl Eq name) ↔ KeptBy decl decl.effectiveAllowedHeader name := by
    unfold KeptBy OnList
    simp [DeclarationStep.allowed]
  rw [kept]
  constructor
  · intro found
    exact (lookup_headers_cases decl view traceparent found).resolve_right fun injected => apart injected.1
  · rintro ⟨found,stays⟩
    have held : name ∈ view.headers := AList.lookup_isSome.mp (by rw [found]; rfl)
    rwa [lookup_headers decl view traceparent stays held]

/-- The traceparent is seen behind every declaration. -/
theorem lookup_traceparent (decoded : Decoded view traceparent) (decl : DeclarationStep) :
    (returned decl view traceparent).headers.lookup "traceparent" = some traceparent := by
  have held : (returned decl view traceparent).Has .headers "traceparent" := by
    refine (has_returned decl view traceparent .headers "traceparent").mpr (.inl ⟨?_,.inr (.inl rfl)⟩)
    exact AList.lookup_isSome.mp (by rw [decoded.traceparent]; rfl)
  obtain ⟨value,found⟩ := Option.isSome_iff_exists.mp (AList.lookup_isSome.mpr held)
  rcases lookup_headers_cases decl view traceparent found with ⟨given,_⟩ | ⟨_,rfl,_⟩
  · rw [found,← given,decoded.traceparent]
  · exact found

theorem recased_lower (decl : DeclarationStep) : Recased decl (inLowerCase decl) :=
  recased_respell sameHeader_lower decl

theorem recased_odd (decl : DeclarationStep) : Recased decl (respell odd decl) :=
  recased_respell sameHeader_odd decl

/-- What one spelling of a declaration reads, the declaration reads without case. -/
theorem headersPass_same (recased : Recased decl other) (pass : HeadersPass other view Eq) :
    HeadersPass decl view SameHeader := by
  refine recased.symm.headersPass ?_ pass
  rintro name spelled same _ _ rfl
  exact same.symm

theorem groupsMatched_same (recased : Recased decl other) (matched : GroupsMatched other view Eq) :
    GroupsMatched decl view SameHeader := by
  refine recased.symm.groupsMatched ?_ matched
  rintro name spelled same _ _ rfl
  exact same.symm

/-- A request that some spelling accepts is accepted by the declaration in lower case. -/
theorem accepts_lower (decoded : Decoded view traceparent) (recased : Recased decl other)
    (accepts : Accepts other view method) : Accepts (inLowerCase decl) view method := by
  have pass := headersPass_same recased (headersPass_of_accepts accepts)
  refine (recased.alike.symm.trans (recased_lower decl).alike).accepts accepts (headersPass_respell.mpr ?_)
  exact pass.imp fun name header member => (lower_reads decoded name header member).mpr

theorem guardAccepts_lower (decoded : Decoded view traceparent) (recased : Recased decl other)
    (accepts : GuardAccepts other view method) : GuardAccepts (inLowerCase decl) view method := by
  have matched := groupsMatched_same recased (groupsMatched_of_guard accepts)
  refine (recased.alike.symm.trans (recased_lower decl).alike).guardAccepts accepts (groupsMatched_respell.mpr ?_)
  exact matched.imp fun name header member => (lower_reads decoded name header member).mpr

/-- Names without a letter are read by every spelling. -/
theorem accepts_of_unlettered (recased : Recased decl other) (accepts : Accepts (inLowerCase decl) view method)
    (pass : HeadersPass decl view Unlettered) : Accepts other view method :=
  ((recased_lower decl).alike.symm.trans recased.alike).accepts accepts
    (recased.headersPass (fun name spelled same header _ => unlettered_reads name spelled same header) pass)

theorem guardAccepts_of_unlettered (recased : Recased decl other)
    (accepts : GuardAccepts (inLowerCase decl) view method) (matched : GroupsMatched decl view Unlettered) :
    GuardAccepts other view method :=
  ((recased_lower decl).alike.symm.trans recased.alike).guardAccepts accepts
    (recased.groupsMatched (fun name spelled same header _ => unlettered_reads name spelled same header) matched)

/-- What is seen through one spelling of the list is seen through every other. -/
theorem onList_of_idle (recased : Recased decl other) (spelled : Recased decl third) (idle : LettersIdle decl view)
    (filtered : decl.unfiltered = false) (member : header ∈ view.headers) (apart : header ≠ "traceparent")
    (listed : OnList other Eq header) : OnList third Eq header := by
  have same : OnList decl SameHeader header := by
    refine recased.symm.onList ?_ listed
    rintro name spelled same rfl
    exact same.symm
  have plain := (idle.kept filtered header member same).resolve_right apart
  exact spelled.onList (fun name spelled same => unlettered_reads name spelled same header) plain

/-- The law of one request holds when the letters of the header names are idle. -/
theorem caseInsensitive_of_idle (decoded : Decoded view traceparent)
    (idle : Accepts (inLowerCase decl) view method → LettersIdle decl view)
    (guard : GuardAccepts (inLowerCase decl) view method → GroupsMatched decl view Unlettered) :
    CaseInsensitive decl view method traceparent := by
  intro other recased
  have self := Recased.refl decl
  refine ⟨?_,?_,?_⟩
  · simp only [applyDeclaration_iff,exists_and_left,exists_eq,and_true]
    constructor
    · intro accepts
      have lower := accepts_lower decoded self accepts
      exact accepts_of_unlettered recased lower (idle lower).pass
    · intro accepts
      have lower := accepts_lower decoded recased accepts
      exact accepts_of_unlettered self lower (idle lower).pass
  · intro out changed first second name
    obtain ⟨accepts,rfl⟩ := (applyDeclaration_iff traceparent).mp first
    obtain ⟨_,rfl⟩ := (applyDeclaration_iff traceparent).mp second
    have quiet := idle (accepts_lower decoded self accepts)
    by_cases injected : name = "traceparent"
    · rw [injected,lookup_traceparent decoded,lookup_traceparent decoded]
    · refine Option.ext fun value => ?_
      rw [lookup_seen decl view traceparent injected,lookup_seen other view traceparent injected]
      have loose : decl.unfiltered = other.unfiltered := by
        unfold DeclarationStep.unfiltered
        rw [recased.alike.strict,recased.alike.additive]
      rw [← loose]
      cases filtered : decl.unfiltered with
      | true => simp
      | false =>
        simp only [Bool.false_eq_true,false_or]
        refine and_congr_right fun found => ?_
        have member : name ∈ view.headers := AList.lookup_isSome.mp (by rw [found]; rfl)
        exact ⟨onList_of_idle self recased quiet filtered member injected,
          onList_of_idle recased self quiet filtered member injected⟩
  · simp only [enforceGuardDeclaration_iff]
    constructor
    · intro accepts
      have lower := guardAccepts_lower decoded self accepts
      exact guardAccepts_of_unlettered recased lower (guard lower)
    · intro accepts
      have lower := guardAccepts_lower decoded recased accepts
      exact guardAccepts_of_unlettered self lower (guard lower)

/-- Where the law holds, a request that the declaration accepts in lower case leaves the letters idle:
the spelling that no header has must do as well. -/
theorem idle_of_caseInsensitive (decoded : Decoded view traceparent)
    (law : CaseInsensitive decl view method traceparent) (lower : Accepts (inLowerCase decl) view method) :
    LettersIdle decl view := by
  obtain ⟨acceptLower,seenLower,_⟩ := law _ (recased_lower decl)
  obtain ⟨acceptOdd,seenOdd,_⟩ := law _ (recased_odd decl)
  obtain ⟨out,accepted⟩ := acceptLower.mpr ⟨_,(applyDeclaration_iff traceparent).mpr ⟨lower,rfl⟩⟩
  obtain ⟨changed,spelled⟩ := acceptOdd.mp ⟨out,accepted⟩
  obtain ⟨accepts,rfl⟩ := (applyDeclaration_iff traceparent).mp spelled
  have unlettered : HeadersPass decl view Unlettered :=
    (headersPass_respell.mp (headersPass_of_accepts accepts)).imp fun name header member =>
      (odd_reads decoded name header member).mp
  refine ⟨unlettered,?_⟩
  intro filtered header member listed
  by_cases injected : header = "traceparent"
  · exact .inr injected
  left
  obtain ⟨value,found⟩ := Option.isSome_iff_exists.mp (AList.lookup_isSome.mpr member)
  -- The header is seen in lower case, so it is seen in the other spelling.
  have onLower : OnList (inLowerCase decl) Eq header :=
    onList_respell.mpr (listed.imp fun name => (lower_reads decoded name header member).mpr)
  have seen := (lookup_seen (inLowerCase decl) view traceparent injected).mpr ⟨found,.inr onLower⟩
  have same := (seenLower out _ accepted ((applyDeclaration_iff traceparent).mpr ⟨lower,rfl⟩) header).symm.trans
    (seenOdd out _ accepted spelled header)
  have still := (lookup_seen (respell odd decl) view traceparent injected).mp (same.symm.trans seen)
  have loose : (respell odd decl).unfiltered = false := filtered
  have onOdd := still.2.resolve_left (by simp [loose])
  exact (onList_respell.mp onOdd).imp fun name => (odd_reads decoded name header member).mp

/-- The spelling of the header names decides nothing exactly when the letters of the names do not:
a request that the declaration would accept in lower case is accepted, and its headers are seen, by
names without a letter. -/
theorem caseInsensitive_iff (decl : DeclarationStep) (view : RequestView) (method traceparent : String)
    (decoded : Decoded view traceparent) : CaseInsensitive decl view method traceparent ↔
      (Accepts (inLowerCase decl) view method → LettersIdle decl view) ∧
        (GuardAccepts (inLowerCase decl) view method → GroupsMatched decl view Unlettered) := by
  constructor
  · intro law
    refine ⟨idle_of_caseInsensitive decoded law,?_⟩
    intro lower
    obtain ⟨_,_,guardLower⟩ := law _ (recased_lower decl)
    obtain ⟨_,_,guardOdd⟩ := law _ (recased_odd decl)
    have accepts := enforceGuardDeclaration_iff.mp
      (guardOdd.mp (guardLower.mpr (enforceGuardDeclaration_iff.mpr lower)))
    exact (groupsMatched_respell.mp (groupsMatched_of_guard accepts)).imp fun name header member =>
      (odd_reads decoded name header member).mp
  · rintro ⟨idle,guard⟩
    exact caseInsensitive_of_idle decoded idle guard

/-- A declaration that names one header. -/
def naming (header : String) (additive : Option Bool) : DeclarationStep where
  allowlist := some { headers := some [{ field := header }] }
  additive

/-- A request with an authorization. -/
def authorized : RequestView where
  query := AList.insert "pathParams" (.array []) ∅
  headers := AList.insert "traceparent" "t" (AList.insert "authorization" "secret" ∅)

theorem decoded_authorized : Decoded authorized "t" where
  lower name member := by
    rcases (AList.mem_insert _).mp member with rfl | later
    · decide
    · rcases (AList.mem_insert _).mp later with rfl | none
      · decide
      · exact absurd none (AList.notMem_empty name)
  traceparent := rfl
  texts name value found apart := by
    rw [show authorized.query = AList.insert "pathParams" (.array []) ∅ from rfl,AList.lookup_insert_ne apart] at found
    cases found
  pathParams := ⟨[],rfl⟩

/-- An additive declaration filters no header, however it is spelled. -/
theorem additive_caseInsensitive : CaseInsensitive (naming "Authorization" (some true)) authorized "GET" "t" := by
  refine (caseInsensitive_iff _ _ "GET" "t" decoded_authorized).mpr ⟨fun _ => ⟨⟨?_,?_⟩,?_⟩,fun _ => ?_⟩
  · intro strict
    cases strict
  · intro group member
    cases member
  · intro filtered
    cases filtered
  · intro group member
    cases member

/-- `Authorization` on the list drops the header that `authorization` lets through. -/
theorem authorization_dropped : (naming "Authorization" none).validatePosture = .ok () ∧
    ¬ CaseInsensitive (naming "Authorization" none) authorized "GET" "t" := by
  refine ⟨by decide +kernel,?_⟩
  intro law
  have recased : Recased (naming "Authorization" none) (naming "authorization" none) :=
    recased_lower (naming "Authorization" none)
  have same := (law _ recased).2.1 (returned (naming "Authorization" none) authorized "t")
    (returned (naming "authorization" none) authorized "t") rfl rfl "authorization"
  revert same
  decide

end Law
end Ruuter
