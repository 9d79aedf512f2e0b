import Ruuter.Parser

/-! What the deserialisers of the steps accept: the equation of the recursive reader, the key
each variant needs, and how the readers depend on the steps of a `do:` block. -/
namespace Ruuter

open Reader

theorem dslFieldOf_agree (agree : Agree n items items') :
    Layout.Agree n (dslFieldOf items) (dslFieldOf items') := by
  unfold dslFieldOf
  repeat apply Layout.Agree.ap
  all_goals first
    | exact Layout.Agree.refl _
    | exact .field agree.nullable

section Agree

variable {n : Nat} {step step' : Reader DslStep}

/-- A step around a body looks one level deeper than the body does. -/
theorem blockStep_agree {body body' : Layout α} {build : α → Option String → BaseStepFields → γ}
    (agree : Layout.Agree (n + 1) body body') :
    Agree (n + 1)
      (flat (Layout.build build |>.ap (Layout.required key (struct body))
        |>.ap (Layout.optional "next" string) |>.ap baseStepFields))
      (flat (Layout.build build |>.ap (Layout.required key (struct body'))
        |>.ap (Layout.optional "next" string) |>.ap baseStepFields)) := by
  have whole : Layout.Agree (n + 2)
      (Layout.build build |>.ap (Layout.required key (struct body))
        |>.ap (Layout.optional "next" string) |>.ap baseStepFields)
      (Layout.build build |>.ap (Layout.required key (struct body'))
        |>.ap (Layout.optional "next" string) |>.ap baseStepFields) :=
    .ap (.ap (.ap (.refl _) (.required (.struct agree))) (.refl _)) (.refl _)
  exact (Agree.flat whole).mono (by omega)

theorem iterateBody_agree (agree : Agree n step step') :
    Layout.Agree (n + 1) (iterateBody step) (iterateBody step') := by
  unfold iterateBody
  repeat apply Layout.Agree.ap
  all_goals first
    | exact Layout.Agree.refl _
    | exact .required agree.list

theorem singleFlightBody_agree (agree : Agree n step step') :
    Layout.Agree (n + 1) (singleFlightBody step) (singleFlightBody step') := by
  unfold singleFlightBody
  repeat apply Layout.Agree.ap
  all_goals first
    | exact Layout.Agree.refl _
    | exact .required agree.list

theorem detachBody_agree (agree : Agree n step step') :
    Layout.Agree (n + 1) (detachBody step) (detachBody step') :=
  .ap (.ap (.refl _) (.required agree.list)) (.refl _)

/-- A variant looks at nested steps below the value only. -/
theorem reader_agree (agree : Agree n step step') (v : Variant) :
    Agree (n + 1) (v.reader buffered step) (v.reader buffered step') := by
  cases v with
  | iterate => exact .map _ (blockStep_agree (iterateBody_agree agree))
  | detach => exact .map _ (blockStep_agree (detachBody_agree agree))
  | singleFlight => exact .map _ (blockStep_agree (singleFlightBody_agree agree))
  | _ => exact .refl _

end Agree

/-- A nested step is read by the first variant that reads it. -/
theorem dslStep_read (j : Json) :
    dslStep.read j = untaggedOrder.findSome? fun v => (v.reader true dslStep).read j := by
  have deeper : ∀ n r r', Agree n r r' →
      Agree (n + 1) (firstOf (untaggedOrder.map (Variant.reader true r)))
        (firstOf (untaggedOrder.map (Variant.reader true r'))) :=
    fun n r r' agree => .firstOf (reader_agree agree) untaggedOrder
  have unfolds : dslStep.read j = (firstOf (untaggedOrder.map (Variant.reader true dslStep))).read j :=
    fix_read deeper j
  rw [unfolds]
  exact List.findSome?_map ..

theorem reader_variant {v : Variant} (given : (v.reader buffered step).read j = some s) :
    s.variant = v := by
  cases v <;>
    (obtain ⟨inner,_,rfl⟩ := Option.map_eq_some_iff.mp given
     rfl)

/-- The key that a variant's record needs. -/
def Variant.actionKey : Variant → Option String
  | .assign => some "assign"
  | .returnStep => some "return"
  | .http | .httpMock => some "call"
  | .switch => some "switch"
  | .log => some "log"
  | .template => some "template"
  | .state => some "state"
  | .iterate => some "iterate"
  | .parallelHttp => some "parallel_http"
  | .detach => some "detach"
  | .wsSend => some "ws_send"
  | .wsTag => some "ws_tag"
  | .singleFlight => some "single_flight"
  | .declaration => none

theorem lookup_of_flat {record : Layout α} (fits : (flat record).Fits (.object members))
    (needed : name ∈ record.needed) : (members.lookup name).isSome := by
  obtain ⟨_,same,fits⟩ := fits
  cases same
  exact record.present _ fits _ needed

theorem key_of_fits {v : Variant} (key : v.actionKey = some name)
    (fits : (v.reader buffered step).Fits (.object members)) : (members.lookup name).isSome := by
  cases v <;> cases key <;> exact lookup_of_flat fits (List.Mem.head _)

/-- The text of `call:` in a step that reads as an HTTP call, real or mocked. -/
theorem call_of_fits {v : Variant} (call : v.actionKey = some "call")
    (fits : (v.reader buffered step).Fits (.object members)) :
    ∃ text, members.lookup "call" = some (.string text) := by
  have text : ∀ members', (Layout.required "call" Reader.string).Fits { members := members' } →
      ∃ text, members'.lookup "call" = some (.string text) := by
    intro members' given
    obtain ⟨_,found,text,rfl⟩ := Layout.required_fits.mp given
    exact ⟨text,found⟩
  cases v with
  | http =>
    obtain ⟨_,same,⟨⟨⟨⟨⟨⟨_,call⟩,_⟩,_⟩,_⟩,_⟩,_⟩,_⟩ := fits
    cases same
    exact text _ call
  | httpMock =>
    obtain ⟨_,same,⟨⟨⟨⟨_,call⟩,_⟩,_⟩,_⟩,_⟩ := fits
    cases same
    exact text _ call
  | _ => exact absurd call (by decide)

theorem struct_read_of_flat {record : Layout α} (given : (flat record).read j = some a) :
    (struct record).read j = some a := by
  cases j with
  | object members => exact given
  | _ => cases given

theorem stateOp_buffered (given : (stateOp false).read j = some op) :
    (stateOp true).read j = some op := by
  unfold stateOp tagged at given ⊢
  simp only at given ⊢
  split at given
  · rename_i name body
    have table : ∀ ops : List (String × Layout StateOp),
        ((ops.map fun op => (op.1,flat op.2)).lookup name).bind (·.read body) = some op →
        ((ops.map fun op => (op.1,struct op.2)).lookup name).bind (·.read body) = some op := by
      intro ops
      induction ops with
      | nil => exact id
      | cons head rest ih =>
        simp only [List.map_cons,List.lookup_cons]
        cases name == head.1 with
        | true => exact struct_read_of_flat
        | false => exact ih
    exact table stateOps given
  · cases given

/-- Buffered content is read at least as well as a plain value. -/
theorem buffered_read {v : Variant} (given : (v.reader false step).read j = some s) :
    (v.reader true step).read j = some s := by
  cases v with
  | state =>
    obtain ⟨inner,read,rfl⟩ := Option.map_eq_some_iff.mp given
    cases j with
    | object members =>
      have parts : (stateStep false).read { members } = some inner := read
      simp only [stateStep,Layout.ap_read,Layout.required_read] at parts
      obtain ⟨g,⟨f,⟨k,built,op,⟨body,found,op_read⟩,rfl⟩,next⟩,base⟩ := parts
      have whole : (stateStep true).read { members } = some inner := by
        simp only [stateStep,Layout.ap_read,Layout.required_read]
        exact ⟨g,⟨_,⟨k,built,op,⟨body,found,stateOp_buffered op_read⟩,rfl⟩,next⟩,base⟩
      have outer : (flat (stateStep true)).read (.object members) = some inner := whole
      simp [Variant.reader,Reader.map,outer]
    | _ => cases read
  | _ => exact given

/-- The bodies with a `do:` block, with their fields in order. -/
def blockKeys : List (String × List String) :=
  [("iterate",["over","as","do","collect","into","max_items"]),
   ("single_flight",["key","ttl_ms","do","result"]),
   ("detach",["do","timeout_ms"])]

namespace Json

def items : Json → List Json
  | .array items => items
  | _ => []

/-- The elements of the `do:` field of a body. -/
def doItems (fields : List String) (body : Json) : List Json :=
  (((Source.ofJson fields body).bind fun s => s.members.lookup "do").map items).getD []

/-- The elements of the `do:` blocks of a step. -/
def blockItems (members : List (String × Json)) : List Json :=
  blockKeys.flatMap fun block => ((members.lookup block.1).map (doItems block.2)).getD []

end Json

section Blocks

variable {σ τ : Type} {r : Reader σ} {r' : Reader τ}

theorem mem_blockItems (block : (key,fields) ∈ blockKeys) (body : members.lookup key = some j)
    (source : Source.ofJson fields j = some s) (found : s.members.lookup "do" = some (.array items))
    (member : item ∈ items) : item ∈ Json.blockItems members := by
  apply List.mem_flatMap.mpr
  exact ⟨_,block,by simpa [body,Json.doItems,source,found,Json.items] using member⟩

/-- A `do:` field that fits one reader of steps fits another when its elements do. -/
theorem doField_fits (block : (key,fields) ∈ blockKeys) (body : members.lookup key = some j)
    (source : Source.ofJson fields j = some s)
    (transfer : ∀ item ∈ Json.blockItems members, r.Fits item → r'.Fits item)
    (fits : (Layout.required "do" r.list).Fits s) : (Layout.required "do" r'.list).Fits s := by
  obtain ⟨_,found,items,rfl,all⟩ := Layout.required_fits.mp fits
  have each : ∀ item ∈ items, r'.Fits item := by
    intro item member
    exact transfer item (mem_blockItems block body source found member) (all item member)
  exact Layout.required_fits.mpr ⟨_,found,items,rfl,each⟩

/-- The same for a step around a body. -/
theorem blockStep_fits {body : Layout α} {body' : Layout β}
    {build : α → Option String → BaseStepFields → γ} {build' : β → Option String → BaseStepFields → δ}
    (transfer : ∀ j s, members.lookup key = some j → Source.ofJson body.fields j = some s →
      body.Fits s → body'.Fits s)
    (fits : (flat (Layout.build build |>.ap (Layout.required key (struct body))
      |>.ap (Layout.optional "next" string) |>.ap baseStepFields)).Fits (.object members))
    (fields : body.fields = body'.fields) :
    (flat (Layout.build build' |>.ap (Layout.required key (struct body'))
      |>.ap (Layout.optional "next" string) |>.ap baseStepFields)).Fits (.object members) := by
  obtain ⟨_,same,⟨⟨_,required⟩,next⟩,base⟩ := fits
  cases same
  obtain ⟨j,found,s,source,inner⟩ := Layout.required_fits.mp required
  have outer : (Layout.required key (struct body')).Fits { members } :=
    Layout.required_fits.mpr ⟨j,found,s,fields ▸ source,transfer j s found source inner⟩
  exact ⟨members,rfl,⟨⟨trivial,outer⟩,next⟩,base⟩

theorem iterateStep_fits (transfer : ∀ item ∈ Json.blockItems members, r.Fits item → r'.Fits item)
    (fits : (flat (iterateStep r)).Fits (.object members)) :
    (flat (iterateStep r')).Fits (.object members) := by
  refine blockStep_fits (fun j s found source inner => ?_) fits rfl
  obtain ⟨⟨⟨⟨⟨⟨_,items⟩,name⟩,block⟩,collect⟩,into⟩,most⟩ := inner
  have block' := doField_fits (.head _) found source transfer block
  exact ⟨⟨⟨⟨⟨⟨trivial,items⟩,name⟩,block'⟩,collect⟩,into⟩,most⟩

theorem singleFlightStep_fits
    (transfer : ∀ item ∈ Json.blockItems members, r.Fits item → r'.Fits item)
    (fits : (flat (singleFlightStep r)).Fits (.object members)) :
    (flat (singleFlightStep r')).Fits (.object members) := by
  refine blockStep_fits (fun j s found source inner => ?_) fits rfl
  obtain ⟨⟨⟨⟨_,key⟩,ttl⟩,block⟩,result⟩ := inner
  have block' := doField_fits (.tail _ (.head _)) found source transfer block
  exact ⟨⟨⟨⟨trivial,key⟩,ttl⟩,block'⟩,result⟩

theorem detachStep_fits (transfer : ∀ item ∈ Json.blockItems members, r.Fits item → r'.Fits item)
    (fits : (flat (detachStep r)).Fits (.object members)) :
    (flat (detachStep r')).Fits (.object members) := by
  refine blockStep_fits (fun j s found source inner => ?_) fits rfl
  obtain ⟨⟨_,block⟩,timeout⟩ := inner
  have block' := doField_fits (.tail _ (.tail _ (.head _))) found source transfer block
  exact ⟨⟨trivial,block'⟩,timeout⟩

/-- What a detached step is read from. -/
theorem detachStep_read {d : DetachStep σ}
    (given : (flat (detachStep r)).read (.object members) = some d) :
    ∃ j s items, members.lookup "detach" = some j ∧ Source.ofJson ["do","timeout_ms"] j = some s ∧
      s.members.lookup "do" = some (.array items) ∧ items.mapM r.read = some d.detach.body ∧
      (Layout.defaultedNone "timeout_ms" u64).read s = some d.detach.timeoutMs := by
  have whole : (detachStep r).read { members } = some d := given
  simp only [detachStep,Layout.ap_read,Layout.required_read] at whole
  obtain ⟨g,⟨f,⟨k,built,body,⟨j,found,read⟩,rfl⟩,next,_,rfl⟩,base,_,rfl⟩ := whole
  cases built
  obtain ⟨s,source,read⟩ := Option.bind_eq_some_iff.mp read
  simp only [detachBody,Layout.ap_read,Layout.required_read] at read
  obtain ⟨f,⟨k,built,block,⟨value,listed,read⟩,rfl⟩,timeout,timed,rfl⟩ := read
  cases built
  cases value with
  | array items => exact ⟨j,s,items,found,source,listed,read,timed⟩
  | _ => cases read

/-- Two readings of a detached step: one timeout, and blocks read from the same elements. -/
theorem detachStep_reads {d : DetachStep σ} {d' : DetachStep τ}
    (first : (flat (detachStep r)).read (.object members) = some d)
    (second : (flat (detachStep r')).read (.object members) = some d') :
    d.detach.timeoutMs = d'.detach.timeoutMs ∧
      ∃ items : List Json, (∀ item ∈ items, item ∈ Json.blockItems members) ∧
        items.mapM r.read = some d.detach.body ∧ items.mapM r'.read = some d'.detach.body := by
  obtain ⟨j,s,items,found,source,listed,read,timed⟩ := detachStep_read first
  obtain ⟨j',s',items',found',source',listed',read',timed'⟩ := detachStep_read second
  cases found.symm.trans found'
  cases source.symm.trans source'
  cases listed.symm.trans listed'
  refine ⟨Option.some.inj (timed.symm.trans timed'),items,?_,read,read'⟩
  intro item member
  exact mem_blockItems (.tail _ (.tail _ (.head _))) found source listed member

end Blocks
end Ruuter
