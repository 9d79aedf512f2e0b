import Ruuter.NestedGrammar

/-! The effective declaration. `Dsl::new` keeps the first step that was parsed as a
declaration, and a step may be parsed as one for three reasons: it says so, it has a field of
a declaration, or it has control-flow fields only. -/
namespace Ruuter

/-- A setting that is made is kept, with its value. -/
def Kept (given effective : Option α) : Prop := ∀ value, given = some value → effective = some value

/-- The settings of a declaration that decide about access: the internal gate, the input
filter, the proxy and the guard override. -/
structure Carries (effective d : DeclarationStep) : Prop where
  internal : Kept d.internal effective.internal
  allowlist : Kept d.allowlist effective.allowlist
  allowedBody : Kept d.allowedBody effective.allowedBody
  allowedHeader : Kept d.allowedHeader effective.allowedHeader
  allowedParams : Kept d.allowedParams effective.allowedParams
  strict : Kept d.strict effective.strict
  additive : Kept d.additive effective.additive
  proxy : Kept d.proxy effective.proxy
  overrideAncestors : Kept d.overrideAncestors effective.overrideAncestors

theorem Carries.refl (d : DeclarationStep) : Carries d d :=
  ⟨fun _ => id,fun _ => id,fun _ => id,fun _ => id,fun _ => id,fun _ => id,fun _ => id,fun _ => id,fun _ => id⟩

/-- Every field of a declaration but the control-flow fields. -/
structure Reflects (effective d : DeclarationStep) : Prop extends Carries effective d where
  version : Kept d.version effective.version
  description : Kept d.description effective.description
  «namespace» : Kept d.namespace effective.namespace
  returns : Kept d.returns effective.returns

/-- The checks at load time were made of a declaration. -/
structure Validated (dsl : Dsl) (decl : DeclarationStep) : Prop where
  posture : decl.validatePosture = .ok ()
  proxyOnly : decl.proxy.isSome = true → ∀ entry ∈ dsl.steps.entries, entry.2.variant = .declaration

/-- A mapping read as a declaration. -/
def declared (serde : Serde) (m : List (Yaml × Yaml)) : Option DeclarationStep :=
  ((Yaml.mapping m).toJson serde.toFloatText).bind (Reader.flat declarationStep).read

/-- The effective declaration of a loaded text covers every step that was parsed as a
declaration, and every `declaration:` block beside an action. -/
structure Covered (parser : DslParser) (content : String) (dsl : Dsl) : Prop where
  steps : ∀ name d, dsl.getStep name = some (.declaration d) →
    ∃ decl, dsl.declaration = some decl ∧ Carries decl d ∧ Validated dsl decl
  blocks : ∀ yaml name m block step,
    parser.serde.yaml (parser.replaceConstants content) = .ok yaml →
    yaml.lookup name = some (.mapping m) → Yaml.get? m "declaration" = some (.mapping block) →
    dsl.getStep name = some step → step.variant ≠ .declaration →
    ∃ d, declared parser.serde block = some d ∧ Reflects (dsl.declaration.getD {}) d

/-- The keys of a mapping make it a declaration: `call: declare`, a declaration field and no
action, or control-flow fields only. -/
def declares (m : List (Yaml × Yaml)) : Bool :=
  match variantHint "" (keyPresent m) (strField m "call") (bareControl m) with
  | .ok .declaration => true
  | _ => false

/-- The first step of a document that is a declaration by its keys. -/
def leading (serde : Serde) (entries : List (Sigma fun _ : String => Yaml)) : Option DeclarationStep :=
  entries.findSome? fun entry =>
    match entry.2 with
    | .mapping m => if declares m then declared serde m else none
    | _ => none

/-- The first declaration of a document already makes every setting that another step makes
which is a declaration by its keys, and every setting of a `declaration:` block beside an
action. -/
structure Unhidden (serde : Serde) (yaml : StringMap Yaml) : Prop where
  steps : ∀ name m d, yaml.lookup name = some (.mapping m) → declares m = true →
    declared serde m = some d → Carries ((leading serde yaml.entries).getD {}) d
  blocks : ∀ name m block, yaml.lookup name = some (.mapping m) → declares m = false →
    Yaml.get? m "declaration" = some (.mapping block) →
    ∃ d, declared serde block = some d ∧ Reflects ((leading serde yaml.entries).getD {}) d

section Parsed
variable {serde : Serde}

theorem declares_eq (name : String) (hint : variantHint name (keyPresent m) (strField m "call")
    (bareControl m) = .ok v) : declares m = decide (v = .declaration) := by
  have unnamed := (variantHint_iff "").mpr ((variantHint_iff name).mp hint)
  simp only [declares,unnamed]
  cases v <;> rfl

/-- A step was parsed as a declaration exactly when its keys make it one. -/
theorem parseStep_kind (parsed : parseStep serde name value = .ok step) : ∃ m, value = .mapping m ∧
    ((declares m = true ∧ ∃ d, step = .declaration d ∧ declared serde m = some d) ∨
      (declares m = false ∧ step.variant ≠ .declaration)) := by
  cases value with
  | mapping m =>
    refine ⟨m,rfl,?_⟩
    obtain ⟨v,json,hint,converted,read,_⟩ := parseStep_iff.mp parsed
    rw [declares_eq name hint,← reader_variant read]
    by_cases kind : v = .declaration
    · subst kind
      obtain ⟨d,held,rfl⟩ := Option.map_eq_some_iff.mp read
      exact .inl ⟨rfl,d,rfl,by rw [declared,converted]; exact held⟩
    · have other : step.variant ≠ .declaration := by rwa [reader_variant read]
      exact .inr ⟨by simpa using other,other⟩
  | _ => simp [parseStep] at parsed

theorem leading_cons (shaped : declares m = true) (held : declared serde m = some d) :
    leading serde (⟨name,.mapping m⟩ :: rest) = some d := by
  simp only [leading,List.findSome?_cons,shaped,if_true,held]

theorem findSome_eq_leading {after : List (Sigma fun _ : String => DslStep)}
    (pairs : List.Forall₂
      (fun entry step => step.1 = entry.1 ∧ parseStep serde entry.1 entry.2 = .ok step.2) before after) :
    (after.findSome? fun entry =>
      match entry.2 with
      | .declaration decl => some decl
      | _ => none) = leading serde before := by
  induction pairs with
  | nil => rfl
  | cons related rest ih =>
    rename_i entry step _ _
    obtain ⟨m,value,⟨declaring,d,parsed,held⟩ | ⟨acting,other⟩⟩ := parseStep_kind related.2
    · simp only [leading,List.findSome?_cons,value,parsed,declaring,held,if_pos]
    · have skipped : (match step.2 with
          | .declaration decl => some decl
          | _ => none) = none := by
        cases eq : step.2 with
        | declaration d => exact absurd (by rw [eq]; rfl) other
        | _ => rfl
      simp only [leading,List.findSome?_cons,value,acting,skipped,Bool.false_eq_true,if_false]
      exact ih

/-- `Dsl::new` keeps the first step that is a declaration by its keys. -/
theorem declaration_eq_leading {yaml : StringMap Yaml} (parsed : parseSteps serde yaml = .ok steps) :
    Dsl.declaration { steps } = leading serde yaml.entries :=
  findSome_eq_leading (Assoc.traverse_pairs parsed)

end Parsed

theorem exists_declaration {dsl : Dsl} (stored : dsl.getStep name = some (.declaration d)) :
    ∃ decl, dsl.declaration = some decl := by
  apply Option.isSome_iff_exists.mp
  exact List.findSome?_isSome_iff.mpr ⟨⟨name,.declaration d⟩,AList.mem_lookup_iff.mp stored,rfl⟩

namespace DslParser

theorem validated_of_ok (valid : validateDsl dsl = .ok ()) (found : dsl.declaration = some decl) :
    Validated dsl decl := by
  unfold validateDsl at valid
  rw [found] at valid
  simp only at valid
  cases posture : decl.validatePosture with
  | error message => simp [posture] at valid
  | ok =>
    refine ⟨posture,?_⟩
    intro proxied entry member
    simp only [posture,proxied,if_true,checkProxyRoute] at valid
    split at valid
    · rename_i actions
      have dropped := List.filterMap_eq_nil_iff.mp actions entry member
      by_contra other
      simp [other] at dropped
    · cases valid

theorem accepted_inv {parser : DslParser} (accepted : parser.parseContent content = .ok dsl) :
    ∃ yaml, parser.serde.yaml (parser.replaceConstants content) = .ok yaml ∧
      parseSteps parser.serde yaml = .ok dsl.steps ∧ validateDsl dsl = .ok () := by
  cases loaded : parser.serde.yaml (parser.replaceConstants content) with
  | error message => simp [parseContent,loaded] at accepted
  | ok yaml =>
    rw [parseContent_loaded loaded] at accepted
    cases parsed : parseSteps parser.serde yaml with
    | error e => simp [parsed,bind,Except.bind] at accepted
    | ok steps =>
      cases valid : validateDsl { steps } with
      | error e => simp [parsed,valid,bind,Except.bind] at accepted
      | ok =>
        simp only [parsed,valid,bind,Except.bind,pure,Except.pure,Except.ok.injEq] at accepted
        subst accepted
        exact ⟨yaml,rfl,parsed,valid⟩

section Accepted
variable {parser : DslParser} {yaml : StringMap Yaml} {dsl : Dsl}
  (loaded : parser.serde.yaml (parser.replaceConstants content) = .ok yaml)
  (parsed : parseSteps parser.serde yaml = .ok dsl.steps)
include loaded parsed

theorem unhidden_of_covered (covered : Covered parser content dsl) : Unhidden parser.serde yaml := by
  have effective : dsl.declaration = leading parser.serde yaml.entries := declaration_eq_leading parsed
  constructor
  · intro name m d found declaring held
    obtain ⟨step,read,stored⟩ := Assoc.lookup_traverse parsed found
    obtain ⟨_,eq,⟨_,own,rfl,given⟩ | ⟨acting,_⟩⟩ := parseStep_kind read
    · cases eq
      cases held.symm.trans given
      obtain ⟨decl,kept,carries,_⟩ := covered.steps name d stored
      rwa [← effective,kept]
    · cases eq
      rw [declaring] at acting
      cases acting
  · intro name m block found acting written
    obtain ⟨step,read,stored⟩ := Assoc.lookup_traverse parsed found
    obtain ⟨_,eq,⟨declaring,_⟩ | ⟨_,kind⟩⟩ := parseStep_kind read
    · cases eq
      rw [acting] at declaring
      cases declaring
    · rw [← effective]
      exact covered.blocks yaml name m block step loaded found written stored kind

theorem covered_of_unhidden (valid : validateDsl dsl = .ok ()) (unhidden : Unhidden parser.serde yaml) :
    Covered parser content dsl := by
  have effective : dsl.declaration = leading parser.serde yaml.entries := declaration_eq_leading parsed
  constructor
  · intro name d stored
    obtain ⟨value,found,read⟩ := Assoc.lookup_traverse_inv parsed stored
    obtain ⟨m,rfl,⟨declaring,own,eq,held⟩ | ⟨_,kind⟩⟩ := parseStep_kind read
    · cases eq
      obtain ⟨decl,kept⟩ := exists_declaration stored
      have carries := unhidden.steps name m d found declaring held
      rw [← effective,kept] at carries
      exact ⟨decl,kept,carries,validated_of_ok valid kept⟩
    · exact absurd rfl kind
  · intro other name m block step again found written stored kind
    cases loaded.symm.trans again
    obtain ⟨_,read,same⟩ := Assoc.lookup_traverse parsed found
    cases stored.symm.trans same
    obtain ⟨_,eq,⟨_,own,rfl,_⟩ | ⟨acting,_⟩⟩ := parseStep_kind read
    · exact absurd rfl kind
    · cases eq
      rw [effective]
      exact unhidden.blocks name m block found acting written

end Accepted

/-- The effective declaration covers every declaring step of an accepted text exactly when
nothing is set behind the first declaration or beside an action that the first declaration
does not set itself. -/
theorem covered_iff_unhidden (parser : DslParser) (accepted : parser.parseContent content = .ok dsl) :
    Covered parser content dsl ↔
      ∀ yaml, parser.serde.yaml (parser.replaceConstants content) = .ok yaml → Unhidden parser.serde yaml := by
  obtain ⟨yaml,loaded,parsed,valid⟩ := accepted_inv accepted
  constructor
  · intro covered other again
    cases loaded.symm.trans again
    exact unhidden_of_covered loaded parsed covered
  · intro unhidden
    exact covered_of_unhidden loaded parsed valid (unhidden yaml loaded)

def declaringStep : List (Yaml × Yaml) :=
  [(.string "call",.string "declare"),(.string "internal",.bool true)]

def declaringContent : String := "declare:\n  call: declare\n  internal: true\n"

def declaringDocument : StringMap Yaml := AList.singleton "declare" (.mapping declaringStep)

/-- A declaration on its own is effective. -/
theorem declaring_covered :
    ∃ dsl, (oneDocument declaringContent declaringDocument).parseContent declaringContent = .ok dsl ∧
      Covered (oneDocument declaringContent declaringDocument) declaringContent dsl := by
  have text : (oneDocument declaringContent declaringDocument).replaceConstants declaringContent =
      declaringContent :=
    replaceConstants_plain _ (by decide +kernel)
  have only : ∀ name m, declaringDocument.lookup name = some (.mapping m) → m = declaringStep := by
    intro name m found
    have member := AList.mem_lookup_iff.mp found
    cases List.mem_singleton.mp member
    rfl
  obtain ⟨dsl,accepted⟩ := oneDocument_accepts text (by decide +kernel)
  refine ⟨dsl,accepted,(covered_iff_unhidden _ accepted).mpr ?_⟩
  intro yaml loaded
  cases (oneDocument_loaded text).symm.trans loaded
  constructor
  · intro name m d found _ held
    cases only name m found
    have shaped : declares declaringStep = true := by decide +kernel
    have first : leading (oneDocument declaringContent declaringDocument).serde declaringDocument.entries =
        some d := leading_cons shaped held
    rw [first]
    exact Carries.refl d
  · intro name m block found _ written
    cases only name m found
    cases written

/-- A declaration behind a step with control-flow fields only. -/
def hiddenContent : String := "start:\n  next: declare\ndeclare:\n  call: declare\n  internal: true\n"

def hiddenDocument : StringMap Yaml where
  entries := [⟨"start",.mapping [(.string "next",.string "declare")]⟩,⟨"declare",.mapping declaringStep⟩]
  nodupKeys := by simp [List.NodupKeys]

/-- A declaration block beside an action. -/
def besideContent : String := "work:\n  log: done\n  declaration:\n    internal: true\n"

def internalBlock : List (Yaml × Yaml) := [(.string "internal",.bool true)]

def loggingStep : List (Yaml × Yaml) :=
  [(.string "log",.string "done"),(.string "declaration",.mapping internalBlock)]

def besideDocument : StringMap Yaml := AList.singleton "work" (.mapping loggingStep)

/-- Both texts are accepted, and `internal: true` is lost in both. -/
theorem declarations_lost :
    (∃ dsl, (oneDocument hiddenContent hiddenDocument).parseContent hiddenContent = .ok dsl ∧
      ¬ Covered (oneDocument hiddenContent hiddenDocument) hiddenContent dsl) ∧
    ∃ dsl, (oneDocument besideContent besideDocument).parseContent besideContent = .ok dsl ∧
      ¬ Covered (oneDocument besideContent besideDocument) besideContent dsl := by
  have text : (oneDocument hiddenContent hiddenDocument).replaceConstants hiddenContent = hiddenContent :=
    replaceConstants_plain _ (by decide +kernel)
  have besideText : (oneDocument besideContent besideDocument).replaceConstants besideContent =
      besideContent :=
    replaceConstants_plain _ (by decide +kernel)
  constructor
  · obtain ⟨dsl,accepted⟩ := oneDocument_accepts text (by decide +kernel)
    refine ⟨dsl,accepted,?_⟩
    intro covered
    obtain ⟨yaml,loaded,parsed,_⟩ := accepted_inv accepted
    cases (oneDocument_loaded text).symm.trans loaded
    have unhidden := unhidden_of_covered loaded parsed covered
    have written : (declared (oneDocument hiddenContent hiddenDocument).serde declaringStep).map (·.internal) =
        some (some true) := by
      decide +kernel
    obtain ⟨d,held,set⟩ := Option.map_eq_some_iff.mp written
    have carried := (unhidden.steps "declare" declaringStep d rfl (by decide +kernel) held).internal true set
    exact absurd carried (by decide +kernel)
  · obtain ⟨dsl,accepted⟩ := oneDocument_accepts besideText (by decide +kernel)
    refine ⟨dsl,accepted,?_⟩
    intro covered
    obtain ⟨yaml,loaded,parsed,_⟩ := accepted_inv accepted
    cases (oneDocument_loaded besideText).symm.trans loaded
    have unhidden := unhidden_of_covered loaded parsed covered
    obtain ⟨d,held,reflects⟩ := unhidden.blocks "work" loggingStep internalBlock rfl (by decide +kernel) rfl
    have written : (declared (oneDocument besideContent besideDocument).serde internalBlock).map (·.internal) =
        some (some true) := by
      decide +kernel
    rw [held] at written
    have carried := reflects.internal true (Option.some.inj written)
    exact absurd carried (by decide +kernel)

end DslParser
end Ruuter
