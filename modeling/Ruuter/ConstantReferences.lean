import Ruuter.Lib.Assoc
import Ruuter.Lib.Scan
import Ruuter.Lint

/-! References to constants (`src/dsl/interpolate.rs`): how a text falls into references and other
text, and that the parser, the linter and the configuration of a source
(`src/sources/config.rs`) all follow this one reading. -/
namespace Ruuter

namespace Interpolate
open Scan

/-- `[#NAME]` or `#{NAME}`: a name that is not empty and does not hold the closing delimiter. -/
inductive Reference : String → List Char → Prop
  | bracket : name ≠ [] → ']' ∉ name → Reference (String.ofList name) ('[' :: '#' :: (name ++ [']']))
  | brace : name ≠ [] → '\x7d' ∉ name → Reference (String.ofList name) ('#' :: '\x7b' :: (name ++ ['\x7d']))

/-- `ConstantRef`. -/
structure ConstantRef where
  key : String
  literal : String
deriving DecidableEq

def constantRefsFrom : Nat → List Char → List ConstantRef
  | 0, _ | _, [] => []
  | n + 1, c :: text =>
    match reference (c :: text) with
    | none => constantRefsFrom n text
    | some (key,rest) =>
      let literal := (c :: text).take (text.length + 1 - rest.length)
      ⟨String.ofList key,String.ofList literal⟩ :: constantRefsFrom n rest

/-- `iter_refs`, with the names. -/
def constantRefs (input : String) : List ConstantRef := constantRefsFrom input.length input.toList

def substituteWithFrom (lookup : String → σ → Option String × σ) : Nat → List Char → σ → List Char × σ
  | 0, _, s | _, [], s => ([],s)
  | n + 1, c :: text, s =>
    match reference (c :: text) with
    | none =>
      let later := substituteWithFrom lookup n text s
      (c :: later.1,later.2)
    | some (key,rest) =>
      let found := lookup (String.ofList key) s
      let literal := (c :: text).take (text.length + 1 - rest.length)
      let later := substituteWithFrom lookup n rest found.2
      ((found.1.map String.toList).getD literal ++ later.1,later.2)

/-- `substitute` with a lookup that keeps a state. -/
def substituteWith (lookup : String → σ → Option String × σ) (input : String) (s : σ) : String × σ :=
  let result := substituteWithFrom lookup input.length input.toList s
  (String.ofList result.1,result.2)

theorem delimited_iff : delimited close text = some (key,rest) ↔
    key ≠ [] ∧ close ∉ key ∧ text = key ++ close :: rest := by
  unfold delimited
  constructor
  · intro found
    split at found
    · rename_i first later stop tail parts
      cases found
      rw [List.span_eq_takeWhile_dropWhile,Prod.mk.injEq] at parts
      obtain ⟨front,back⟩ := parts
      have whole := List.takeWhile_append_dropWhile (p := (· ≠ close)) (l := text)
      have closes : stop = close := by
        have head := List.head?_dropWhile_not (· ≠ close) text
        rw [back] at head
        simpa using head
      rw [front,back,closes] at whole
      refine ⟨List.cons_ne_nil _ _,?_,whole.symm⟩
      rw [← front]
      exact fun member => by simpa using List.mem_takeWhile_imp member
    · cases found
  · rintro ⟨nonempty,clean,rfl⟩
    have passes : ∀ c ∈ key, (decide (c ≠ close)) = true := fun c member =>
      decide_eq_true (fun same => clean (same ▸ member))
    rw [List.span_eq_takeWhile_dropWhile,List.takeWhile_append_of_pos passes,List.dropWhile_append_of_pos passes]
    obtain ⟨c,name,rfl⟩ := List.exists_cons_of_ne_nil nonempty
    simp

/-- The references as a language of tokens. -/
def scanner : Scanner Char String where
  Token := Reference
  front text := (reference text).map fun found => (String.ofList found.1,found.2)
  nonempty token := by cases token <;> exact List.cons_ne_nil _ _
  front_iff := by
    intro text key rest
    constructor
    · intro found
      obtain ⟨⟨name,_⟩,read,same⟩ := Option.map_eq_some_iff.mp found
      cases same
      unfold reference at read
      split at read
      · obtain ⟨nonempty,clean,rfl⟩ := delimited_iff.mp read
        exact ⟨_,.bracket nonempty clean,by simp⟩
      · obtain ⟨nonempty,clean,rfl⟩ := delimited_iff.mp read
        exact ⟨_,.brace nonempty clean,by simp⟩
      · cases read
    · rintro ⟨literal,token,rfl⟩
      cases token with
      | bracket nonempty clean =>
        simp only [List.cons_append,List.append_assoc,List.nil_append,reference,
          delimited_iff.mpr ⟨nonempty,clean,rfl⟩,Option.map_some]
      | brace nonempty clean =>
        simp only [List.cons_append,List.append_assoc,List.nil_append,reference,
          delimited_iff.mpr ⟨nonempty,clean,rfl⟩,Option.map_some]

theorem reference_eq_none (passed : scanner.front text = none) : reference text = none :=
  Option.map_eq_none_iff.mp passed

/-- A reference at the front of a text, with its key and as it is written. -/
theorem reference_eq_some (same : c :: text = literal ++ rest) (taken : scanner.front (c :: text) = some (key,rest)) :
    ∃ name, reference (c :: text) = some (name,rest) ∧ String.ofList name = key ∧
      (c :: text).take (text.length + 1 - rest.length) = literal := by
  obtain ⟨⟨name,_⟩,read,equal⟩ := Option.map_eq_some_iff.mp taken
  cases equal
  exact ⟨name,read,rfl,Scanner.take_token same⟩

/-- The reading of a text as references and other characters. -/
def Reads (text : String) (pieces : List (Piece Char String)) : Prop := scanner.Decomposes text.toList pieces

/-- The reference of a piece. -/
def refOf : Piece Char String → Option ConstantRef
  | .token key literal => some ⟨key,String.ofList literal⟩
  | .other _ => none

/-- A piece after the substitution: a reference whose name is known gives way to its value. -/
def substituted (lookup : String → Option String) (piece : Piece Char String) : List Char :=
  piece.render fun key => (lookup key).map String.toList

/-- A piece in a substitution with a state. -/
def substitutedWith (lookup : String → σ → Option String × σ) (piece : Piece Char String)
    (later : σ → List Char × σ) (s : σ) : List Char × σ :=
  match piece with
  | .other c => (c :: (later s).1,(later s).2)
  | .token key literal =>
    let found := lookup key s
    ((found.1.map String.toList).getD literal ++ (later found.2).1,(later found.2).2)

section Reading
variable {pieces : List (Piece Char String)} {text : String}

theorem substitute_eq (reads : Reads text pieces) (lookup : String → Option String) :
    substitute text lookup = String.ofList (pieces.flatMap (substituted lookup)) := by
  have fold : ∀ pieces : List (Piece Char String),
      pieces.foldr (fun piece later => substituted lookup piece ++ later) [] = pieces.flatMap (substituted lookup) := by
    intro pieces
    induction pieces with
    | nil => rfl
    | cons piece rest ih => rw [List.foldr_cons,ih,List.flatMap_cons]
  unfold substitute
  rw [← fold]
  congr 1
  refine reads.run_eq_foldr (f := fun piece later => substituted lookup piece ++ later) ?_ ?_ ?_
    (Nat.le_of_eq String.length_toList)
  · intro n
    cases n <;> rfl
  · intro n c rest passed
    rw [substituteFrom,reference_eq_none passed]
    rfl
  · intro n c text key literal rest same taken
    obtain ⟨name,read,rfl,written⟩ := reference_eq_some same taken
    rw [substituteFrom,read]
    simp only [written]
    rfl

theorem constantRefs_eq (reads : Reads text pieces) : constantRefs text = pieces.filterMap refOf := by
  have fold : ∀ pieces : List (Piece Char String),
      pieces.foldr (fun piece later => (refOf piece).toList ++ later) [] = pieces.filterMap refOf := by
    intro pieces
    induction pieces with
    | nil => rfl
    | cons piece rest ih =>
      rw [List.foldr_cons,ih]
      cases piece <;> rfl
  unfold constantRefs
  rw [← fold]
  refine reads.run_eq_foldr (f := fun piece later => (refOf piece).toList ++ later) ?_ ?_ ?_
    (Nat.le_of_eq String.length_toList)
  · intro n
    cases n <;> rfl
  · intro n c rest passed
    rw [constantRefsFrom,reference_eq_none passed]
    rfl
  · intro n c text key literal rest same taken
    obtain ⟨name,read,rfl,written⟩ := reference_eq_some same taken
    rw [constantRefsFrom,read]
    simp only [written]
    rfl

theorem substituteWithFrom_eq (reads : Reads text pieces) (lookup : String → σ → Option String × σ) :
    substituteWithFrom lookup text.length text.toList = pieces.foldr (substitutedWith lookup) fun s => ([],s) := by
  refine reads.run_eq_foldr ?_ ?_ ?_ (Nat.le_of_eq String.length_toList)
  · intro n
    cases n <;> rfl
  · intro n c rest passed
    funext s
    rw [substituteWithFrom,reference_eq_none passed]
    rfl
  · intro n c text key literal rest same taken
    obtain ⟨name,read,rfl,written⟩ := reference_eq_some same taken
    funext s
    rw [substituteWithFrom,read]
    simp only [written]
    rfl

/-- The state goes through the names of the references, in their order. -/
theorem substituteWith_state (lookup : String → σ → Option String × σ) (text : String) (s : σ) :
    (substituteWith lookup text s).2 = ((constantRefs text).map (·.key)).foldl (fun s key => (lookup key s).2) s := by
  obtain ⟨pieces,reads⟩ := scanner.exists_decomposes text.toList
  rw [constantRefs_eq reads]
  unfold substituteWith
  rw [substituteWithFrom_eq reads]
  clear reads
  induction pieces generalizing s with
  | nil => rfl
  | cons piece rest ih =>
    cases piece with
    | token key literal => exact ih (lookup key s).2
    | other c => exact ih s

/-- A lookup whose answer does not depend on its state. -/
theorem substituteWith_text {lookup : String → σ → Option String × σ} {look : String → Option String}
    (answers : ∀ key s, (lookup key s).1 = look key) (text : String) (s : σ) :
    (substituteWith lookup text s).1 = substitute text look := by
  obtain ⟨pieces,reads⟩ := scanner.exists_decomposes text.toList
  rw [substitute_eq reads]
  unfold substituteWith
  rw [substituteWithFrom_eq reads]
  refine congrArg String.ofList ?_
  clear reads
  induction pieces generalizing s with
  | nil => rfl
  | cons piece rest ih =>
    cases piece with
    | token key literal =>
      rw [List.flatMap_cons,← ih (lookup key s).2]
      show ((lookup key s).1.map String.toList).getD literal ++ _ = _
      rw [answers]
      rfl
    | other c =>
      rw [List.flatMap_cons,← ih s]
      rfl

/-- The references that the linter reports are those of `constantRefs`. -/
theorem iterRefs_eq (text : String) : iterRefs text = (constantRefs text).map (·.literal) := by
  have each : ∀ n text, iterRefsFrom n text = (constantRefsFrom n text).map (·.literal) := by
    intro n
    induction n with
    | zero => intro text; rfl
    | succ n ih =>
      intro text
      cases text with
      | nil => rfl
      | cons c rest =>
        rw [iterRefsFrom,constantRefsFrom]
        cases reference (c :: rest) with
        | none => exact ih rest
        | some found => exact congrArg _ (ih found.2)
  exact each _ _

end Reading

end Interpolate

namespace Json

mutual

/-- Change the string leaves of a value. Object keys stay. -/
def mapStrings (f : String → String) : Json → Json
  | .string s => .string (f s)
  | .array items => .array (mapStringsList f items)
  | .object members => .object (mapStringsMembers f members)
  | .null => .null
  | .bool b => .bool b
  | .number n => .number n

def mapStringsList (f : String → String) : List Json → List Json
  | [] => []
  | item :: rest => item.mapStrings f :: mapStringsList f rest

def mapStringsMembers (f : String → String) : List (String × Json) → List (String × Json)
  | [] => []
  | (key,value) :: rest => (key,value.mapStrings f) :: mapStringsMembers f rest

end

end Json

namespace Sources
open Interpolate

inductive OnConnectAction
  | sendJson (value : Json)

structure DispatchConfig where
  channel : String
  key : String

structure ReconnectPolicy where
  initialBackoffMs : UInt64 := 500
  maxBackoffMs : UInt64 := 60000
  jitter : Bool := true

structure WsSourceConfig where
  url : String
  headers : StringMap String := ∅
  onConnect : List OnConnectAction := []
  dispatch : DispatchConfig
  reconnect : ReconnectPolicy := {}

def undefinedConstant (key : String) : RuuterError := .config ("undefined constant [#" ++ key ++ "]")

/-- The closure of `sub`: the first name without a value is kept. -/
def lookupStrict (constants : StringMap String) (key : String) (missing : Option String) :
    Option String × Option String :=
  match constants.lookup key with
  | some value => (some value,missing)
  | none => (none,if missing.isNone then some key else missing)

def sub (s : String) (constants : StringMap String) : Except RuuterError String :=
  let result := substituteWith (lookupStrict constants) s none
  match result.2 with
  | some key => .error (undefinedConstant key)
  | none => .ok result.1

mutual

/-- The keys of an object are distinct and in order, so they keep their places. -/
def subValue (constants : StringMap String) : Json → Except RuuterError Json
  | .string s => (sub s constants).map .string
  | .array items => (subItems constants items).map .array
  | .object members => (subMembers constants members).map .object
  | .null => .ok .null
  | .bool b => .ok (.bool b)
  | .number n => .ok (.number n)

def subItems (constants : StringMap String) : List Json → Except RuuterError (List Json)
  | [] => .ok []
  | item :: rest => do
    let item ← subValue constants item
    let rest ← subItems constants rest
    return item :: rest

def subMembers (constants : StringMap String) : List (String × Json) → Except RuuterError (List (String × Json))
  | [] => .ok []
  | (key,value) :: rest => do
    let value ← subValue constants value
    let rest ← subMembers constants rest
    return (key,value) :: rest

end

/-- The headers in the order of their iteration. -/
def subHeaders (constants : StringMap String) :
    List (Sigma fun _ : String => String) → StringMap String → Except RuuterError (StringMap String)
  | [], resolved => .ok resolved
  | entry :: rest, resolved => do
    let name ← sub entry.1 constants
    let value ← sub entry.2 constants
    subHeaders constants rest (resolved.insert name value)

def subActions (constants : StringMap String) : List OnConnectAction → Except RuuterError (List OnConnectAction)
  | [] => .ok []
  | .sendJson value :: rest => do
    let value ← subValue constants value
    let rest ← subActions constants rest
    return .sendJson value :: rest

def resolveConstants (cfg : WsSourceConfig) (constants : StringMap String) : Except RuuterError WsSourceConfig := do
  let url ← sub cfg.url constants
  let channel ← sub cfg.dispatch.channel constants
  let key ← sub cfg.dispatch.key constants
  let headers ← subHeaders constants cfg.headers.entries ∅
  let onConnect ← subActions constants cfg.onConnect
  return { cfg with url, dispatch := { channel, key }, headers, onConnect }

/-- The strings of a configuration, the keys of objects left out. -/
def WsSourceConfig.strings (cfg : WsSourceConfig) : List String :=
  cfg.url :: cfg.dispatch.channel :: cfg.dispatch.key ::
    (cfg.headers.entries.flatMap (fun entry => [entry.1,entry.2]) ++
      cfg.onConnect.flatMap fun | .sendJson value => value.strings)

/-- Every name that the texts refer to has a value. -/
def Known (constants : StringMap String) (texts : List String) : Prop :=
  ∀ text ∈ texts, ∀ ref ∈ constantRefs text, (constants.lookup ref.key).isSome

/-- A strict pass over some texts: with every name known it gives `out`, else the error about a name. -/
def Strict (constants : StringMap String) (texts : List String) (out : α) (result : Except RuuterError α) : Prop :=
  (Known constants texts ∧ result = .ok out) ∨
    ∃ text ∈ texts, ∃ ref ∈ constantRefs text, constants.lookup ref.key = none ∧
      result = .error (undefinedConstant ref.key)

section Strict
variable {constants : StringMap String}

theorem Strict.isOk (strict : Strict constants texts out result) :
    (∃ value, result = .ok value) ↔ Known constants texts := by
  rcases strict with ⟨known,rfl⟩ | ⟨text,member,ref,refers,missing,rfl⟩
  · exact ⟨fun _ => known,fun _ => ⟨out,rfl⟩⟩
  · constructor
    · rintro ⟨_,wrong⟩
      cases wrong
    · intro known
      have found := known text member ref refers
      rw [missing] at found
      cases found

theorem Strict.eq_of_ok (strict : Strict constants texts out result) (ok : result = .ok given) : given = out := by
  rcases strict with ⟨_,rfl⟩ | ⟨_,_,_,_,_,rfl⟩
  · cases ok
    rfl
  · cases ok

theorem Strict.pure (out : α) : Strict constants [] out (.ok out) :=
  .inl ⟨fun _ member => absurd member List.not_mem_nil,rfl⟩

theorem Strict.bind {f : α → Except RuuterError β} (first : Strict constants texts out result)
    (second : Strict constants others out' (f out)) : Strict constants (texts ++ others) out' (result >>= f) := by
  rcases first with ⟨known,rfl⟩ | ⟨text,member,ref,refers,missing,rfl⟩
  · rcases second with ⟨more,same⟩ | ⟨text,member,ref,refers,missing,same⟩
    · refine .inl ⟨fun text member => ?_,same⟩
      exact (List.mem_append.mp member).elim (known text) (more text)
    · exact .inr ⟨text,List.mem_append_right _ member,ref,refers,missing,same⟩
  · exact .inr ⟨text,List.mem_append_left _ member,ref,refers,missing,rfl⟩

theorem Strict.map (f : α → β) (strict : Strict constants texts out result) :
    Strict constants texts (f out) (result.map f) := by
  rcases strict with ⟨known,rfl⟩ | ⟨text,member,ref,refers,missing,rfl⟩
  · exact .inl ⟨known,rfl⟩
  · exact .inr ⟨text,member,ref,refers,missing,rfl⟩

/-- The first name without a value. -/
theorem foldl_lookupStrict (constants : StringMap String) (keys : List String) (missing : Option String) :
    keys.foldl (fun missing key => (lookupStrict constants key missing).2) missing =
      missing.or (keys.find? fun key => (constants.lookup key).isNone) := by
  induction keys generalizing missing with
  | nil => exact (Option.or_none).symm
  | cons key rest ih =>
    rw [List.foldl_cons,ih,List.find?_cons]
    unfold lookupStrict
    cases constants.lookup key with
    | some value => rfl
    | none => cases missing <;> rfl

theorem sub_strict (s : String) (constants : StringMap String) :
    Strict constants [s] (substitute s constants.lookup) (sub s constants) := by
  have answers : ∀ key missing, (lookupStrict constants key missing).1 = constants.lookup key := by
    intro key missing
    unfold lookupStrict
    cases constants.lookup key <;> rfl
  unfold sub
  simp only [substituteWith_state,substituteWith_text answers,foldl_lookupStrict,Option.none_or]
  cases first : ((constantRefs s).map (·.key)).find? fun key => (constants.lookup key).isNone with
  | none =>
    refine .inl ⟨?_,rfl⟩
    intro text member ref refers
    obtain rfl := List.mem_singleton.mp member
    have known := List.find?_eq_none.mp first ref.key (List.mem_map_of_mem refers)
    rwa [Bool.not_eq_true,Option.isNone_eq_false_iff] at known
  | some key =>
    obtain ⟨ref,refers,rfl⟩ := List.mem_map.mp (List.mem_of_find?_eq_some first)
    have missing := List.find?_some first
    exact .inr ⟨s,List.mem_singleton_self s,ref,refers,Option.isNone_iff_eq_none.mp missing,rfl⟩

theorem subHeaders_strict (entries : List (Sigma fun _ : String => String)) (resolved : StringMap String) :
    Strict constants (entries.flatMap fun entry => [entry.1,entry.2])
      (entries.foldl (fun headers entry =>
        headers.insert (substitute entry.1 constants.lookup) (substitute entry.2 constants.lookup)) resolved)
      (subHeaders constants entries resolved) := by
  induction entries generalizing resolved with
  | nil => exact .pure _
  | cons entry rest ih => exact (sub_strict entry.1 constants).bind ((sub_strict entry.2 constants).bind (ih _))

mutual

theorem subValue_strict : (value : Json) →
    Strict constants value.strings (value.mapStrings fun s => substitute s constants.lookup)
      (subValue constants value)
  | .string s => (sub_strict s constants).map _
  | .array items => (subItems_strict items).map _
  | .object members => (subMembers_strict members).map _
  | .null => .pure _
  | .bool _ => .pure _
  | .number _ => .pure _

theorem subItems_strict : (items : List Json) →
    Strict constants (Json.stringsList items) (Json.mapStringsList (fun s => substitute s constants.lookup) items)
      (subItems constants items)
  | [] => .pure _
  | item :: rest => (subValue_strict item).bind ((subItems_strict rest).map _)

theorem subMembers_strict : (members : List (String × Json)) →
    Strict constants (Json.stringsMembers members)
      (Json.mapStringsMembers (fun s => substitute s constants.lookup) members) (subMembers constants members)
  | [] => .pure _
  | (_,value) :: rest => (subValue_strict value).bind ((subMembers_strict rest).map _)

end

def OnConnectAction.mapStrings (f : String → String) : OnConnectAction → OnConnectAction
  | .sendJson value => .sendJson (value.mapStrings f)

theorem subActions_strict (actions : List OnConnectAction) :
    Strict constants (actions.flatMap fun | .sendJson value => value.strings)
      (actions.map (·.mapStrings fun s => substitute s constants.lookup)) (subActions constants actions) := by
  induction actions with
  | nil => exact .pure _
  | cons action rest ih =>
    obtain ⟨value⟩ := action
    exact (subValue_strict value).bind (ih.map _)

/-- A configuration with its strings substituted. -/
def WsSourceConfig.substituted (cfg : WsSourceConfig) (f : String → String) : WsSourceConfig where
  url := f cfg.url
  headers := cfg.headers.entries.foldl (fun headers entry => headers.insert (f entry.1) (f entry.2)) ∅
  onConnect := cfg.onConnect.map (·.mapStrings f)
  dispatch := { channel := f cfg.dispatch.channel, key := f cfg.dispatch.key }
  reconnect := cfg.reconnect

theorem resolveConstants_strict (cfg : WsSourceConfig) (constants : StringMap String) :
    Strict constants cfg.strings (cfg.substituted fun s => substitute s constants.lookup)
      (resolveConstants cfg constants) := by
  refine (sub_strict cfg.url constants).bind ?_
  refine (sub_strict cfg.dispatch.channel constants).bind ?_
  refine (sub_strict cfg.dispatch.key constants).bind ?_
  refine (subHeaders_strict cfg.headers.entries ∅).bind ?_
  exact (subActions_strict cfg.onConnect).map fun onConnect =>
    { cfg.substituted (fun s => substitute s constants.lookup) with onConnect }

end Strict

/-- The strings of a configuration are changed and nothing else. Of headers whose names fall together
the last one stays. -/
structure Agrees (f : String → String) (cfg out : WsSourceConfig) : Prop where
  url : out.url = f cfg.url
  channel : out.dispatch.channel = f cfg.dispatch.channel
  key : out.dispatch.key = f cfg.dispatch.key
  headers : ∀ name, out.headers.lookup name =
    Assoc.latest (cfg.headers.entries.map fun entry => (f entry.1,f entry.2)) name
  onConnect : out.onConnect = cfg.onConnect.map (·.mapStrings f)
  reconnect : out.reconnect = cfg.reconnect

theorem substituted_agrees (f : String → String) (cfg : WsSourceConfig) : Agrees f cfg (cfg.substituted f) where
  url := rfl
  channel := rfl
  key := rfl
  headers name := by
    have filled := Assoc.lookup_foldl_latest (cfg.headers.entries.map fun entry => (f entry.1,f entry.2)) ∅ name
    rw [List.foldl_map,AList.lookup_empty,Option.or_none] at filled
    exact filled
  onConnect := rfl
  reconnect := rfl

/-- The lookup of a map that also writes down the names. -/
def recording (constants : StringMap String) (key : String) (names : List String) : Option String × List String :=
  (constants.lookup key,names ++ [key])

theorem substituteWith_recording (constants : StringMap String) (text : String) :
    substituteWith (recording constants) text [] =
      (substitute text constants.lookup,(constantRefs text).map (·.key)) := by
  have names : ∀ keys seen : List String,
      keys.foldl (fun seen key => (recording constants key seen).2) seen = seen ++ keys := by
    intro keys
    induction keys with
    | nil => exact fun seen => (List.append_nil seen).symm
    | cons key rest ih =>
      intro seen
      rw [List.foldl_cons,ih,List.append_cons]
      rfl
  have answers : ∀ key seen, (recording constants key seen).1 = constants.lookup key := fun _ _ => rfl
  refine Prod.ext (substituteWith_text answers text []) ?_
  rw [substituteWith_state,names,List.nil_append]

/-- One reading of a text decides what the parser puts in, which names are looked up and what the linter
lists. The strict pass over the configuration of a source looks at its strings, not at the keys of objects:
it fails exactly when one of their names is unknown, and else it substitutes each of them. -/
theorem constants_single_pass (parser : DslParser) :
    (∀ text, ∃ pieces, Reads text pieces ∧ (∀ others, Reads text others → others = pieces) ∧
      parser.replaceConstants text =
        String.ofList (pieces.flatMap (Interpolate.substituted parser.constants.lookup)) ∧
      constantRefs text = pieces.filterMap refOf ∧
      substituteWith (recording parser.constants) text [] =
        (parser.replaceConstants text,(constantRefs text).map (·.key))) ∧
    ∀ cfg, ((∃ out, resolveConstants cfg parser.constants = .ok out) ↔ Known parser.constants cfg.strings) ∧
      ∀ out, resolveConstants cfg parser.constants = .ok out → Agrees parser.replaceConstants cfg out := by
  constructor
  · intro text
    obtain ⟨pieces,reads⟩ := scanner.exists_decomposes text.toList
    refine ⟨pieces,reads,?_,substitute_eq reads _,constantRefs_eq reads,substituteWith_recording _ text⟩
    exact fun others same => Scan.Scanner.Decomposes.unique same reads
  · intro cfg
    have strict := resolveConstants_strict cfg parser.constants
    refine ⟨strict.isOk,fun out ok => ?_⟩
    rw [strict.eq_of_ok ok]
    exact substituted_agrees _ cfg

/-- A frame with a reference in the key of an object. -/
def keyedSource : WsSourceConfig where
  url := "wss://feed"
  onConnect := [.sendJson (.object [("[#topic]",.string "#\x7btoken\x7d")])]
  dispatch := { channel := "$.T", key := "$.K" }

/-- Two headers whose names have one value. -/
def twinSource : WsSourceConfig where
  url := "wss://feed"
  headers := ((∅ : StringMap String).insert "[#first]" "1").insert "#\x7bsecond\x7d" "2"
  dispatch := { channel := "$.T", key := "$.K" }

def twinConstants : StringMap String := (AList.singleton "first" "X").insert "second" "X"

theorem object_key_not_substituted :
    (¬ ∀ cfg constants members key, .sendJson (.object members) ∈ cfg.onConnect → key ∈ members.map Prod.fst →
      (∃ out, resolveConstants cfg constants = .ok out) → Known constants [key]) ∧
    ¬ ∀ cfg constants out, resolveConstants cfg constants = .ok out → ∀ entry ∈ cfg.headers.entries,
      out.headers.lookup (substitute entry.1 constants.lookup) = some (substitute entry.2 constants.lookup) := by
  constructor
  · intro claimed
    have known := claimed keyedSource (AList.singleton "token" "t") _ "[#topic]" List.mem_cons_self List.mem_cons_self
      ⟨_,rfl⟩
    have wrong := known "[#topic]" List.mem_cons_self ⟨"topic","[#topic]"⟩ (by decide)
    exact absurd wrong (by decide)
  · intro claimed
    have kept := claimed twinSource twinConstants _ rfl ⟨"#\x7bsecond\x7d","2"⟩ (by decide)
    exact absurd kept (by decide)

theorem twin_source_resolves :
    ∃ out, resolveConstants twinSource twinConstants = .ok out ∧
      Agrees (substitute · twinConstants.lookup) twinSource out ∧ out.headers.entries = [⟨"X","1"⟩] := by
  let parser : DslParser := { DslParser.oneDocument "" ∅ with constants := twinConstants }
  have passes := (constants_single_pass parser).2 twinSource
  obtain ⟨out,ok⟩ := passes.1.mpr (by unfold Known; decide)
  exact ⟨out,ok,passes.2 out ok,by cases ok; decide⟩

end Sources
end Ruuter
