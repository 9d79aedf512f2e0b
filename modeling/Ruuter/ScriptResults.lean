import Mathlib.Algebra.Order.Ring.Unbundled.Rat
import Ruuter.Context
import Ruuter.JsValue
import Ruuter.Lib.Reader

/-! How the two script engines turn the value of a script into JSON (`js_value_to_json` of
`src/scripting/boa.rs` and `src/scripting/quickjs.rs`): directly, or by way of
`JSON.stringify` and the JSON reader. -/
namespace Ruuter

/-- The value of a number. -/
def Number.toRat : Number → Rat
  | .posInt n => (n.toNat : Int)
  | .negInt k => (-(k.val + 1) : Int)
  | .float q => q

namespace Scripting

section Printing

/-- The multiple of a unit that is closest to a number, among those that read back as it. -/
def closest (x unit : Nat) : Option Nat :=
  let down := x / unit * unit
  let up := down + unit
  let candidates := if 2 * (x - down) ≤ unit then [down,up] else [up,down]
  candidates.find? fun candidate => nearestDouble candidate = x

/-- `Number::toString` of an integer below `10 ^ 21`: the fewest digits that read back as it, then zeros. -/
def printed (x : Nat) : Nat := ((List.range 21).reverse.findSome? fun zeros => closest x (10 ^ zeros)).getD x

theorem closest_reads (found : closest x unit = some digits) : nearestDouble digits = x := by
  unfold closest at found
  dsimp only at found
  have reads := List.find?_some found
  exact of_decide_eq_true reads

theorem printed_cases (x : Nat) : nearestDouble (printed x) = x ∨ printed x = x := by
  unfold printed
  cases found : (List.range 21).reverse.findSome? fun zeros => closest x (10 ^ zeros) with
  | none => exact .inr rfl
  | some digits =>
    obtain ⟨zeros,_,held⟩ := List.exists_of_findSome?_eq_some found
    exact .inl (closest_reads held)

theorem le_nearestDouble (large : 2 ^ 53 ≤ n) : 2 ^ 53 ≤ nearestDouble n := by
  have log : 53 ≤ n.log2 := (Nat.le_log2 (by omega)).mpr large
  have split : 2 ^ 52 * 2 ^ (n.log2 - 52) = 2 ^ n.log2 := by rw [← Nat.pow_add]; congr 1; omega
  have low : 2 ^ 52 ≤ n / 2 ^ (n.log2 - 52) := by
    rw [Nat.le_div_iff_mul_le (Nat.two_pow_pos _),split]
    exact Nat.log2_self_le (by omega)
  have down : 2 ^ 53 ≤ n / 2 ^ (n.log2 - 52) * 2 ^ (n.log2 - 52) := calc
    2 ^ 53 ≤ 2 ^ n.log2 := Nat.pow_le_pow_right (by omega) log
    _ = 2 ^ 52 * 2 ^ (n.log2 - 52) := split.symm
    _ ≤ n / 2 ^ (n.log2 - 52) * 2 ^ (n.log2 - 52) := Nat.mul_le_mul_right _ low
  unfold nearestDouble
  rw [if_neg (Nat.not_lt.mpr large)]
  dsimp only
  split
  · exact down.trans (Nat.mul_le_mul_right _ (Nat.le_succ _))
  · exact down

/-- Below `2 ^ 53` the digits are those of the integer. -/
theorem printed_of_lt (small : x < 2 ^ 53) : printed x = x := by
  rcases printed_cases x with reads | same
  · by_cases low : printed x < 2 ^ 53
    · exact (nearestDouble_of_lt low).symm.trans reads
    · have high := le_nearestDouble (Nat.not_lt.mp low)
      omega
  · exact same

theorem printed_pos (positive : 0 < x) : 0 < printed x := by
  apply Nat.pos_of_ne_zero
  intro zero
  rcases printed_cases x with reads | same
  · rw [zero,nearestDouble_of_lt (by decide)] at reads
    omega
  · omega

end Printing

/-- The text of a number: an integer, or one with a fraction or an exponent. `nearest` is the number
that was printed. -/
inductive NumberText
  | integer (negative : Bool) (digits : Nat) (nearest : Rat)
  | decimal (nearest : Rat)

/-- The tree of a JSON text. A string may hold lone surrogates, as escapes. -/
inductive JsonText
  | null
  | bool (b : Bool)
  | number (text : NumberText)
  | string (units : JsString)
  | array (items : List JsonText)
  | object (members : List (JsString × JsonText))

def numberText (q : Rat) : NumberText :=
  if q.den = 1 ∧ q.num.natAbs < 10 ^ 21 then .integer (q < 0) (printed q.num.natAbs) q else .decimal q

mutual

/-- `JSON.stringify`. -/
def stringify : JsValue → Option JsonText
  | .undefined => none
  | .null => some .null
  | .bool b => some (.bool b)
  | .number (.finite q) => some (.number (numberText q))
  | .number .nonFinite => some .null
  | .string units => some (.string units)
  | .array items => some (.array (stringifyItems items))
  | .object members | .inheriting _ members => some (.object (stringifyMembers members))

def stringifyItems : List JsValue → List JsonText
  | [] => []
  | item :: rest => (stringify item).getD .null :: stringifyItems rest

def stringifyMembers : List (JsString × JsValue) → List (JsString × JsonText)
  | [] => []
  | (key,value) :: rest =>
    match stringify value with
    | some text => (key,text) :: stringifyMembers rest
    | none => stringifyMembers rest

end

/-- The JSON reader where the source leaves it open: the double that it makes of digits which are no
integer of 64 bits, by the double they were printed from, and the texts of errors. -/
structure JsonReader where
  readFloat : Rat → Rat
  parseError : JsonText → String
  utf8Error : JsString → String

namespace JsonText

mutual

def depth : JsonText → Nat
  | .array items => depthItems items + 1
  | .object members => depthMembers members + 1
  | .null | .bool _ | .number _ | .string _ => 0

def depthItems : List JsonText → Nat
  | [] => 0
  | item :: rest => max item.depth (depthItems rest)

def depthMembers : List (JsString × JsonText) → Nat
  | [] => 0
  | (_,value) :: rest => max value.depth (depthMembers rest)

end

end JsonText

namespace JsonReader
variable (r : JsonReader)

def readNumber : NumberText → Number
  | .integer negative digits nearest =>
    if negative then
      if h : 0 < digits ∧ digits ≤ 2 ^ 63 then .negInt ⟨digits - 1,by omega⟩ else .float (r.readFloat nearest)
    else if digits < 2 ^ 64 then .posInt (UInt64.ofNat digits)
    else .float (r.readFloat nearest)
  | .decimal nearest => .float (r.readFloat nearest)

mutual

/-- A text without regard to its depth. -/
def readText : JsonText → Option Json
  | .null => some .null
  | .bool b => some (.bool b)
  | .number text => some (.number (r.readNumber text))
  | .string units => (Utf16.decode units).map .string
  | .array items => (readItems items).map .array
  | .object members => (readMembers members []).map .object

def readItems : List JsonText → Option (List Json)
  | [] => some []
  | item :: rest => do
    let item ← readText item
    let rest ← readItems rest
    return item :: rest

def readMembers : List (JsString × JsonText) → List (String × Json) → Option (List (String × Json))
  | [], held => some held
  | (key,text) :: rest, held => do
    let name ← Utf16.decode key
    let value ← readText text
    readMembers rest (Json.insertMember name value held)

end

/-- `serde_json::from_str`, which stops at 128 nested values. -/
def fromStr (text : JsonText) : Except String Json :=
  match r.readText text with
  | some value => if text.depth < 128 then .ok value else .error (r.parseError text)
  | none => .error (r.parseError text)

end JsonReader

/-- `Number::from` of an `i64`. -/
def numberOfI64 (n : Int) : Number :=
  if n < 0 then .negInt (Fin.ofNat _ (n.natAbs - 1)) else .posInt (UInt64.ofNat n.toNat)

/-- A float as an `i64`, saturating. -/
def asI64 (q : Rat) : Int := max (-2 ^ 63) (min q.num (2 ^ 63 - 1))

section Engines
variable (r : JsonReader)

/-- `JSON.stringify` gives a text for every object. -/
def boaFallback (value : JsValue) : Except RuuterError Json :=
  match stringify value with
  | none => .ok .null
  | some text => (r.fromStr text).mapError .scriptEvaluation

mutual

/-- `js_value_to_json` of `boa.rs`. -/
def boaJson : JsValue → Except RuuterError Json
  | .undefined | .null => .ok .null
  | .bool b => .ok (.bool b)
  | .number (.finite q) => .ok (.number (if q.den = 1 then numberOfI64 (asI64 q) else .float q))
  | .number .nonFinite => .error (.scriptEvaluation "Invalid number")
  | .string units => .ok (.string (Utf16.escaped units))
  | .array items => (boaItems items).map .array
  | .object members => boaFallback r (.object members)
  | .inheriting prototype members => boaFallback r (.inheriting prototype members)

def boaItems : List JsValue → Except RuuterError (List Json)
  | [] => .ok []
  | item :: rest => do
    let item ← boaJson item
    let rest ← boaItems rest
    return item :: rest

end

/-- `JSON.stringify` and the reader, for arrays and objects. -/
def quickjsComposite (value : JsValue) : Except RuuterError Json :=
  match stringify value with
  | none => .error (.scriptEvaluation "qjs stringify: ")
  | some text => (r.fromStr text).mapError fun e => .scriptEvaluation ("qjs → json parse: " ++ e)

/-- `js_value_to_json` of `quickjs.rs`. -/
def quickjsJson : JsValue → Except RuuterError Json
  | .undefined | .null => .ok .null
  | .bool b => .ok (.bool b)
  | .number (.finite q) =>
    .ok (.number (if q.den = 1 ∧ q.num.natAbs < 2 ^ 63 then numberOfI64 (asI64 q) else .float q))
  | .number .nonFinite => .error (.scriptEvaluation "Invalid number")
  | .string units =>
    match Utf16.decode units with
    | some s => .ok (.string s)
    | none => .error (.scriptEvaluation ("qjs str: " ++ r.utf8Error units))
  | .array items => quickjsComposite r (.array items)
  | .object members => quickjsComposite r (.object members)
  | .inheriting prototype members => quickjsComposite r (.inheriting prototype members)

end Engines

section Conditions
variable (r : JsonReader)

mutual

/-- No string or name inside holds a lone surrogate. A member that is undefined leaves no trace. -/
def Readable : JsValue → Prop
  | .string units => (Utf16.decode units).isSome
  | .array items => ReadableItems items
  | .object members | .inheriting _ members => ReadableMembers members
  | .undefined | .null | .bool _ | .number _ => True

def ReadableItems : List JsValue → Prop
  | [] => True
  | item :: rest => Readable item ∧ ReadableItems rest

def ReadableMembers : List (JsString × JsValue) → Prop
  | [] => True
  | (key,value) :: rest => (value = .undefined ∨ (Utf16.decode key).isSome ∧ Readable value) ∧ ReadableMembers rest

end

mutual

/-- How deep arrays and objects are nested. -/
def nesting : JsValue → Nat
  | .array items => nestingItems items + 1
  | .object members | .inheriting _ members => nestingMembers members + 1
  | .undefined | .null | .bool _ | .number _ | .string _ => 0

def nestingItems : List JsValue → Nat
  | [] => 0
  | item :: rest => max (nesting item) (nestingItems rest)

def nestingMembers : List (JsString × JsValue) → Nat
  | [] => 0
  | (_,value) :: rest => max (nesting value) (nestingMembers rest)

end

def Parses (value : JsValue) : Prop := Readable value ∧ nesting value < 128

mutual

/-- Boa takes arrays apart by itself and prints the objects inside. -/
def BoaConverts : JsValue → Prop
  | .number n => n ≠ .nonFinite
  | .array items => BoaConvertsItems items
  | .object members => Parses (.object members)
  | .inheriting prototype members => Parses (.inheriting prototype members)
  | .undefined | .null | .bool _ | .string _ => True

def BoaConvertsItems : List JsValue → Prop
  | [] => True
  | item :: rest => BoaConverts item ∧ BoaConvertsItems rest

end

/-- QuickJS prints every array and object. -/
def QuickjsConverts : JsValue → Prop
  | .number n => n ≠ .nonFinite
  | .string units => (Utf16.decode units).isSome
  | .array items => Parses (.array items)
  | .object members => Parses (.object members)
  | .inheriting prototype members => Parses (.inheriting prototype members)
  | .undefined | .null | .bool _ => True

mutual

/-- The numbers that arrays alone lead to: integers that fit 64 bits and are printed with their own digits,
and other numbers that are read back as they are. -/
def SameItem : JsValue → Prop
  | .number (.finite q) =>
    if q.den = 1 then -2 ^ 63 ≤ q.num ∧ q.num < 2 ^ 63 ∧ printed q.num.natAbs = q.num.natAbs
    else r.readFloat q = q
  | .array items => SameItems items
  | .number .nonFinite | .object _ | .inheriting _ _ | .undefined | .null | .bool _ | .string _ => True

def SameItems : List JsValue → Prop
  | [] => True
  | item :: rest => SameItem item ∧ SameItems rest

end

/-- The same for a whole result: an integer that is no item is not printed. -/
def Same : JsValue → Prop
  | .number (.finite q) => q.den = 1 → q.num.natAbs < 2 ^ 63
  | .array items => SameItems r items
  | .number .nonFinite | .object _ | .inheriting _ _ | .undefined | .null | .bool _ | .string _ => True

/-- An integer keeps its value when it is printed and read: with 64 bits by its own digits, else as a float. -/
def Survives (q : Rat) : Prop :=
  if q.num.natAbs < 10 ^ 21 ∧ printed q.num.natAbs < (if q.num < 0 then 2 ^ 63 + 1 else 2 ^ 64) then
    printed q.num.natAbs = q.num.natAbs
  else r.readFloat q = q

mutual

def Survive : JsValue → Prop
  | .number (.finite q) => q.den = 1 → Survives r q
  | .array items => SurviveItems items
  | .object members | .inheriting _ members => SurviveMembers members
  | .number .nonFinite | .undefined | .null | .bool _ | .string _ => True

def SurviveItems : List JsValue → Prop
  | [] => True
  | item :: rest => Survive item ∧ SurviveItems rest

def SurviveMembers : List (JsString × JsValue) → Prop
  | [] => True
  | (_,value) :: rest => Survive value ∧ SurviveMembers rest

end

mutual

/-- Every integral number of a value has its value in the JSON. -/
def Kept : JsValue → Json → Prop
  | .number (.finite q), j => q.den = 1 → ∃ n, j = .number n ∧ n.toRat = q
  | .array items, j => ∃ values, j = .array values ∧ KeptItems items values
  | .object members, j | .inheriting _ members, j => ∃ out, j = .object out ∧ KeptMembers members out
  | .number .nonFinite, _ | .undefined, _ | .null, _ | .bool _, _ | .string _, _ => True

def KeptItems : List JsValue → List Json → Prop
  | [], _ => True
  | item :: rest, values => ∃ value later, values = value :: later ∧ Kept item value ∧ KeptItems rest later

def KeptMembers : List (JsString × JsValue) → List (String × Json) → Prop
  | [], _ => True
  | (key,value) :: rest, out => (value = .undefined ∨ ∃ name held, Utf16.decode key = some name ∧
      out.lookup name = some held ∧ Kept value held) ∧ KeptMembers rest out

end

mutual

/-- The names of an object are distinct. -/
def Distinct : JsValue → Prop
  | .array items => DistinctItems items
  | .object members | .inheriting _ members => (members.map Prod.fst).Nodup ∧ DistinctMembers members
  | .undefined | .null | .bool _ | .number _ | .string _ => True

def DistinctItems : List JsValue → Prop
  | [] => True
  | item :: rest => Distinct item ∧ DistinctItems rest

def DistinctMembers : List (JsString × JsValue) → Prop
  | [] => True
  | (_,value) :: rest => Distinct value ∧ DistinctMembers rest

end

end Conditions

section Texts
variable (r : JsonReader)

theorem eq_undefined {value : JsValue} (nothing : stringify value = none) : value = .undefined := by
  cases value with
  | number n => cases n <;> cases nothing
  | undefined => rfl
  | _ => cases nothing

mutual

theorem depth_stringify : (value : JsValue) → ∀ text, stringify value = some text → text.depth = nesting value
  | .null, _, given => by cases given; rfl
  | .bool _, _, given => by cases given; rfl
  | .number (.finite _), _, given => by cases given; rfl
  | .number .nonFinite, _, given => by cases given; rfl
  | .string _, _, given => by cases given; rfl
  | .array items, _, given => by cases given; exact congrArg (· + 1) (depth_stringifyItems items)
  | .object members, _, given => by cases given; exact congrArg (· + 1) (depth_stringifyMembers members)
  | .inheriting _ members, _, given => by cases given; exact congrArg (· + 1) (depth_stringifyMembers members)

theorem depth_stringifyItems : (items : List JsValue) → JsonText.depthItems (stringifyItems items) = nestingItems items
  | [] => rfl
  | item :: rest => by
    have first : ((stringify item).getD .null).depth = nesting item := by
      cases text : stringify item with
      | none =>
        rw [eq_undefined text]
        rfl
      | some text' => exact depth_stringify item text' text
    rw [stringifyItems,JsonText.depthItems,nestingItems,first,depth_stringifyItems rest]

theorem depth_stringifyMembers : (members : List (JsString × JsValue)) →
    JsonText.depthMembers (stringifyMembers members) = nestingMembers members
  | [] => rfl
  | (key,value) :: rest => by
    rw [stringifyMembers,nestingMembers,← depth_stringifyMembers rest]
    cases text : stringify value with
    | none =>
      rw [eq_undefined text]
      exact (Nat.zero_max _).symm
    | some text' =>
      rw [← depth_stringify value text' text]
      rfl

end

mutual

theorem readText_isSome : (value : JsValue) → ∀ text, stringify value = some text →
    ((r.readText text).isSome ↔ Readable value)
  | .null, _, given => by cases given; exact iff_of_true rfl trivial
  | .bool _, _, given => by cases given; exact iff_of_true rfl trivial
  | .number (.finite _), _, given => by cases given; exact iff_of_true rfl trivial
  | .number .nonFinite, _, given => by cases given; exact iff_of_true rfl trivial
  | .string units, _, given => by
    cases given
    rw [JsonReader.readText,Option.isSome_map,Readable]
  | .array items, _, given => by
    cases given
    rw [JsonReader.readText,Option.isSome_map,Readable,readItems_isSome items]
  | .object members, _, given => by
    cases given
    rw [JsonReader.readText,Option.isSome_map,Readable,readMembers_isSome members]
  | .inheriting _ members, _, given => by
    cases given
    rw [JsonReader.readText,Option.isSome_map,Readable,readMembers_isSome members]

theorem readItems_isSome : (items : List JsValue) → ((r.readItems (stringifyItems items)).isSome ↔ ReadableItems items)
  | [] => iff_of_true rfl trivial
  | item :: rest => by
    have first : (r.readText ((stringify item).getD .null)).isSome ↔ Readable item := by
      cases text : stringify item with
      | none =>
        rw [eq_undefined text]
        exact iff_of_true rfl trivial
      | some text' => exact readText_isSome item text' text
    rw [stringifyItems,JsonReader.readItems,ReadableItems,← first,← readItems_isSome rest]
    cases r.readText ((stringify item).getD .null) <;> cases r.readItems (stringifyItems rest) <;> simp

theorem readMembers_isSome : (members : List (JsString × JsValue)) → ∀ held,
    ((r.readMembers (stringifyMembers members) held).isSome ↔ ReadableMembers members)
  | [], _ => iff_of_true rfl trivial
  | (key,value) :: rest, held => by
    rw [stringifyMembers,ReadableMembers]
    cases text : stringify value with
    | none =>
      rw [eq_undefined text]
      simpa using readMembers_isSome rest held
    | some text' =>
      have defined : value ≠ .undefined := by
        rintro rfl
        cases text
      have second := readText_isSome value text' text
      dsimp only
      rw [JsonReader.readMembers,← second]
      cases Utf16.decode key with
      | none => simp [defined]
      | some name =>
        cases read : r.readText text' with
        | none => simp [defined]
        | some json => simpa [defined] using readMembers_isSome rest (Json.insertMember name json held)

end

/-- What the reader makes of a printed value. -/
theorem fromStr_iff {value : JsValue} (given : stringify value = some text) :
    r.fromStr text = .ok json ↔ r.readText text = some json ∧ nesting value < 128 := by
  rw [← depth_stringify value text given]
  unfold JsonReader.fromStr
  cases r.readText text with
  | none => simp
  | some held =>
    by_cases shallow : text.depth < 128
    · simp [shallow]
    · simp [shallow]

theorem fromStr_ok {value : JsValue} (given : stringify value = some text) :
    (∃ json, r.fromStr text = .ok json) ↔ Parses value := by
  unfold Parses
  rw [← readText_isSome r value text given,Option.isSome_iff_exists]
  constructor
  · rintro ⟨json,read⟩
    obtain ⟨read,shallow⟩ := (fromStr_iff r given).mp read
    exact ⟨⟨json,read⟩,shallow⟩
  · rintro ⟨⟨json,read⟩,shallow⟩
    exact ⟨json,(fromStr_iff r given).mpr ⟨read,shallow⟩⟩

theorem mapError_ok {x : Except ε α} {f : ε → ε'} : x.mapError f = .ok a ↔ x = .ok a := by
  cases x with
  | error e => simp [Except.mapError]
  | ok v => simp [Except.mapError]

theorem boaFallback_iff {value : JsValue} (given : stringify value = some text) :
    boaFallback r value = .ok json ↔ r.readText text = some json ∧ nesting value < 128 := by
  unfold boaFallback
  rw [given]
  exact mapError_ok.trans (fromStr_iff r given)

theorem quickjsComposite_iff {value : JsValue} (given : stringify value = some text) :
    quickjsComposite r value = .ok json ↔ r.readText text = some json ∧ nesting value < 128 := by
  unfold quickjsComposite
  rw [given]
  exact mapError_ok.trans (fromStr_iff r given)

theorem parses_iff {value : JsValue} (given : stringify value = some text) :
    (∃ json, r.readText text = some json ∧ nesting value < 128) ↔ Parses value := by
  rw [← fromStr_ok r given]
  exact exists_congr fun json => (fromStr_iff r given).symm

theorem map_ok {x : Except ε α} {f : α → β} : (∃ out, x.map f = .ok out) ↔ ∃ out, x = .ok out := by
  cases x with
  | error e => simp [Except.map]
  | ok v => simp [Except.map]

mutual

theorem boaJson_ok : (value : JsValue) → ((∃ out, boaJson r value = .ok out) ↔ BoaConverts value)
  | .undefined => iff_of_true ⟨_,rfl⟩ trivial
  | .null => iff_of_true ⟨_,rfl⟩ trivial
  | .bool _ => iff_of_true ⟨_,rfl⟩ trivial
  | .number (.finite _) => iff_of_true ⟨_,rfl⟩ nofun
  | .number .nonFinite => iff_of_false (fun ⟨_,wrong⟩ => nomatch wrong) fun other => other rfl
  | .string _ => iff_of_true ⟨_,rfl⟩ trivial
  | .array items => by
    rw [boaJson,map_ok,BoaConverts]
    exact boaItems_ok items
  | .object members => by
    rw [boaJson,BoaConverts,← parses_iff r rfl]
    exact exists_congr fun json => boaFallback_iff r rfl
  | .inheriting prototype members => by
    rw [boaJson,BoaConverts,← parses_iff r rfl]
    exact exists_congr fun json => boaFallback_iff r rfl

theorem boaItems_ok : (items : List JsValue) → ((∃ out, boaItems r items = .ok out) ↔ BoaConvertsItems items)
  | [] => iff_of_true ⟨_,rfl⟩ trivial
  | item :: rest => by
    rw [boaItems,BoaConvertsItems,← boaJson_ok item,← boaItems_ok rest]
    constructor
    · rintro ⟨out,converted⟩
      obtain ⟨first,held,later⟩ := Eff.except_bind_inv converted
      obtain ⟨others,more,_⟩ := Eff.except_bind_inv later
      exact ⟨⟨first,held⟩,others,more⟩
    · rintro ⟨⟨first,held⟩,others,more⟩
      rw [held,more]
      exact ⟨first :: others,rfl⟩

end

theorem quickjsJson_ok (value : JsValue) : (∃ out, quickjsJson r value = .ok out) ↔ QuickjsConverts value := by
  cases value with
  | undefined => exact iff_of_true ⟨_,rfl⟩ trivial
  | null => exact iff_of_true ⟨_,rfl⟩ trivial
  | bool b => exact iff_of_true ⟨_,rfl⟩ trivial
  | number n =>
    cases n with
    | finite q => exact iff_of_true ⟨_,rfl⟩ nofun
    | nonFinite => exact iff_of_false (fun ⟨_,wrong⟩ => nomatch wrong) fun other => other rfl
  | string units =>
    rw [quickjsJson,QuickjsConverts]
    cases Utf16.decode units <;> simp
  | array items =>
    rw [quickjsJson,QuickjsConverts,← parses_iff r rfl]
    exact exists_congr fun json => quickjsComposite_iff r rfl
  | object members =>
    rw [quickjsJson,QuickjsConverts,← parses_iff r rfl]
    exact exists_congr fun json => quickjsComposite_iff r rfl
  | inheriting prototype members =>
    rw [quickjsJson,QuickjsConverts,← parses_iff r rfl]
    exact exists_congr fun json => quickjsComposite_iff r rfl

end Texts

section Numbers
variable (r : JsonReader)

theorem printed_max : printed (2 ^ 63) = 9223372036854776000 := by decide

/-- Saturation does not give the digits that are printed. -/
theorem printed_eq_min_low (m : Nat) : printed m = min m (2 ^ 63 - 1) ↔ m < 2 ^ 63 ∧ printed m = m := by
  constructor
  · intro same
    by_cases small : m < 2 ^ 63
    · exact ⟨small,by omega⟩
    · have saturated : printed m = 2 ^ 63 - 1 := by omega
      rcases printed_cases m with reads | own
      · have top : m = 2 ^ 63 := by
          rw [saturated] at reads
          exact reads.symm.trans (by decide)
        rw [top,printed_max] at saturated
        omega
      · omega
  · omega

theorem printed_eq_min_high (m : Nat) : printed m = min m (2 ^ 63) ↔ m ≤ 2 ^ 63 ∧ printed m = m := by
  constructor
  · intro same
    by_cases small : m ≤ 2 ^ 63
    · exact ⟨small,by omega⟩
    · have saturated : printed m = 2 ^ 63 := by omega
      rcases printed_cases m with reads | own
      · have top : nearestDouble (2 ^ 63) = 2 ^ 63 := by decide
        rw [saturated,top] at reads
        omega
      · omega
  · omega

theorem posInt_inj (left : a < 2 ^ 64) (right : b < 2 ^ 64) :
    Number.posInt (UInt64.ofNat a) = .posInt (UInt64.ofNat b) ↔ a = b := by
  rw [Number.posInt.injEq]
  constructor
  · intro same
    have equal := congrArg UInt64.toNat same
    rwa [UInt64.toNat_ofNat_of_lt' left,UInt64.toNat_ofNat_of_lt' right] at equal
  · rintro rfl
    rfl

/-- The digits of a 64-bit integer. -/
theorem numberText_integer {q : Rat} (integral : q.den = 1) (small : q.num.natAbs < 10 ^ 21) :
    numberText q = .integer (q.num < 0) (printed q.num.natAbs) q := by
  unfold numberText
  rw [if_pos ⟨integral,small⟩]
  congr 1
  exact decide_eq_decide.mpr Rat.num_neg.symm

theorem numberOfI64_ne_float (n : Int) (q : Rat) : numberOfI64 n ≠ .float q := by
  unfold numberOfI64
  split <;> exact nofun

theorem readNumber_negative (digits : Nat) (q : Rat) (fits : 0 < digits ∧ digits ≤ 2 ^ 63) :
    r.readNumber (.integer true digits q) = .negInt ⟨digits - 1,by omega⟩ := by
  rw [JsonReader.readNumber,if_pos rfl,dif_pos fits]

theorem item_negative (n : Int) (negative : n < 0) (q : Rat) :
    numberOfI64 (max (-2 ^ 63) (min n (2 ^ 63 - 1))) = r.readNumber (.integer true (printed n.natAbs) q) ↔
      n.natAbs ≤ 2 ^ 63 ∧ printed n.natAbs = n.natAbs := by
  have positive : 0 < printed n.natAbs := printed_pos (by omega)
  rw [← printed_eq_min_high]
  have size : (max (-2 ^ 63) (min n (2 ^ 63 - 1))).natAbs = min n.natAbs (2 ^ 63) := by omega
  by_cases fits : printed n.natAbs ≤ 2 ^ 63
  · have low : min n.natAbs (2 ^ 63) - 1 < 2 ^ 63 := by omega
    rw [readNumber_negative r _ q ⟨positive,fits⟩,numberOfI64,if_pos (by omega),size,Number.negInt.injEq,Fin.ext_iff,
      Fin.val_ofNat,Nat.mod_eq_of_lt low]
    have filled : 0 < min n.natAbs (2 ^ 63) := by omega
    show min n.natAbs (2 ^ 63) - 1 = printed n.natAbs - 1 ↔ _
    omega
  · rw [JsonReader.readNumber,if_pos rfl,dif_neg (fun both => fits both.2)]
    refine iff_of_false (numberOfI64_ne_float _ _) ?_
    omega

theorem item_positive (n : Int) (positive : 0 ≤ n) (q : Rat) :
    numberOfI64 (max (-2 ^ 63) (min n (2 ^ 63 - 1))) = r.readNumber (.integer false (printed n.natAbs) q) ↔
      n.natAbs < 2 ^ 63 ∧ printed n.natAbs = n.natAbs := by
  rw [← printed_eq_min_low]
  have size : (max (-2 ^ 63) (min n (2 ^ 63 - 1))).toNat = min n.natAbs (2 ^ 63 - 1) := by omega
  rw [JsonReader.readNumber,if_neg Bool.false_ne_true]
  split
  · rename_i fits
    rw [numberOfI64,if_neg (by omega),size,posInt_inj (by omega) fits]
    exact eq_comm
  · rename_i large
    refine iff_of_false (numberOfI64_ne_float _ _) ?_
    omega

/-- An item that is a number comes out the same when its digits are its own. -/
theorem item_number_iff (q : Rat) :
    (if q.den = 1 then numberOfI64 (asI64 q) else .float q) = r.readNumber (numberText q) ↔
      SameItem r (.number (.finite q)) := by
  rw [SameItem]
  by_cases integral : q.den = 1
  · rw [if_pos integral,if_pos integral]
    by_cases small : q.num.natAbs < 10 ^ 21
    · rw [numberText_integer integral small]
      unfold asI64
      by_cases negative : q.num < 0
      · rw [decide_eq_true negative,item_negative r q.num negative q]
        exact ⟨fun same => ⟨by omega,by omega,same.2⟩,fun same => ⟨by omega,same.2.2⟩⟩
      · rw [decide_eq_false negative,item_positive r q.num (by omega) q]
        exact ⟨fun same => ⟨by omega,by omega,same.2⟩,fun same => ⟨by omega,same.2.2⟩⟩
    · have text : numberText q = .decimal q := if_neg fun both => small both.2
      rw [text,JsonReader.readNumber]
      refine iff_of_false (numberOfI64_ne_float _ _) ?_
      rintro ⟨low,high,_⟩
      omega
  · rw [if_neg integral,if_neg integral]
    have text : numberText q = .decimal q := if_neg fun both => integral both.1
    rw [text,JsonReader.readNumber,Number.float.injEq]
    exact eq_comm

theorem toRat_numberOfI64 {n : Int} (low : -2 ^ 63 ≤ n) (high : n < 2 ^ 63) : (numberOfI64 n).toRat = n := by
  unfold numberOfI64
  split
  · have bound : n.natAbs - 1 < 2 ^ 63 := by omega
    have value : -(((n.natAbs - 1 : Nat) : Int) + 1) = n := by omega
    rw [Number.toRat,Fin.val_ofNat,Nat.mod_eq_of_lt bound,value]
  · have bound : n.toNat < 2 ^ 64 := by omega
    have value : ((n.toNat : Nat) : Int) = n := by omega
    rw [Number.toRat,UInt64.toNat_ofNat_of_lt' bound,value]

theorem toRat_eq_iff {q : Rat} (integral : q.den = 1) (n : Int) : (n : Rat) = q ↔ n = q.num := by
  have own : ((q.num : Int) : Rat) = q := Rat.coe_int_num_of_den_eq_one integral
  constructor
  · intro same
    rw [← own] at same
    exact Rat.intCast_inj.mp same
  · rintro rfl
    exact own

theorem survives_iff {q : Rat} (integral : q.den = 1) :
    (r.readNumber (numberText q)).toRat = q ↔ Survives r q := by
  unfold Survives
  by_cases small : q.num.natAbs < 10 ^ 21
  · rw [numberText_integer integral small]
    by_cases negative : q.num < 0
    · have positive : 0 < printed q.num.natAbs := printed_pos (by omega)
      rw [decide_eq_true negative,if_pos negative]
      by_cases fits : printed q.num.natAbs ≤ 2 ^ 63
      · rw [if_pos ⟨small,by omega⟩,readNumber_negative r _ q ⟨positive,fits⟩,Number.toRat,toRat_eq_iff integral]
        show -(((printed q.num.natAbs - 1 : Nat) : Int) + 1) = q.num ↔ _
        omega
      · rw [if_neg (by omega),JsonReader.readNumber,if_pos rfl,dif_neg (fun both => fits both.2),Number.toRat]
    · rw [decide_eq_false negative,if_neg negative,JsonReader.readNumber,if_neg Bool.false_ne_true]
      by_cases fits : printed q.num.natAbs < 2 ^ 64
      · rw [if_pos fits,if_pos ⟨small,fits⟩,Number.toRat,UInt64.toNat_ofNat_of_lt' fits,toRat_eq_iff integral]
        omega
      · rw [if_neg fits,if_neg fun both => fits both.2,Number.toRat]
  · have text : numberText q = .decimal q := if_neg fun both => small both.2
    rw [text,if_neg fun both => small both.1,JsonReader.readNumber,Number.toRat]

/-- Integers below `2 ^ 53` agree and survive wherever they stand. -/
theorem small_safe {q : Rat} (integral : q.den = 1) (small : q.num.natAbs < 2 ^ 53) :
    SameItem r (.number (.finite q)) ∧ Survives r q := by
  have digits := printed_of_lt small
  constructor
  · rw [SameItem,if_pos integral]
    exact ⟨by omega,by omega,digits⟩
  · unfold Survives
    rw [if_pos ⟨by omega,by split <;> omega⟩]
    exact digits

end Numbers

section Values
variable (r : JsonReader)

/-- An item of an array as the reader gets it. -/
def itemText (value : JsValue) : JsonText := (stringify value).getD .null

theorem readItems_cons {r : JsonReader} (read : r.readItems (stringifyItems (item :: rest)) = some out) :
    ∃ value values, r.readText (itemText item) = some value ∧ r.readItems (stringifyItems rest) = some values ∧
      out = value :: values := by
  rw [stringifyItems,JsonReader.readItems] at read
  obtain ⟨value,first,later⟩ := Option.bind_eq_some_iff.mp read
  obtain ⟨values,others,same⟩ := Option.bind_eq_some_iff.mp later
  exact ⟨value,values,first,others,(Option.some.inj same).symm⟩

mutual

/-- Of an item of an array, Boa's result is what the reader makes of its text when its numbers allow it. -/
theorem boaJson_eq_iff : (value : JsValue) → ∀ a b, boaJson r value = .ok a → r.readText (itemText value) = some b →
    (a = b ↔ SameItem r value)
  | .undefined, _, _, boa, read => by cases boa; cases read; exact iff_of_true rfl trivial
  | .null, _, _, boa, read => by cases boa; cases read; exact iff_of_true rfl trivial
  | .bool _, _, _, boa, read => by cases boa; cases read; exact iff_of_true rfl trivial
  | .number (.finite q), _, _, boa, read => by
    cases boa
    cases read
    rw [Json.number.injEq]
    exact item_number_iff r q
  | .number .nonFinite, _, _, boa, _ => nomatch boa
  | .string units, _, _, boa, read => by
    cases boa
    obtain ⟨s,decoded,rfl⟩ := Option.map_eq_some_iff.mp read
    exact iff_of_true (congrArg Json.string (Utf16.escaped_of_decode decoded)) trivial
  | .array items, _, _, boa, read => by
    obtain ⟨values,inner,rfl⟩ := Option.map_eq_some_iff.mp read
    rw [boaJson] at boa
    cases converted : boaItems r items with
    | error e =>
      rw [converted] at boa
      cases boa
    | ok held =>
      rw [converted] at boa
      cases boa
      rw [Json.array.injEq]
      exact boaItems_eq_iff items held values converted inner
  | .object members, _, _, boa, read => by
    rw [boaJson,boaFallback_iff r rfl] at boa
    rw [itemText,stringify,Option.getD_some,boa.1,Option.some.injEq] at read
    exact iff_of_true read trivial
  | .inheriting prototype members, _, _, boa, read => by
    rw [boaJson,boaFallback_iff r rfl] at boa
    rw [itemText,stringify,Option.getD_some,boa.1,Option.some.injEq] at read
    exact iff_of_true read trivial

theorem boaItems_eq_iff : (items : List JsValue) → ∀ as bs, boaItems r items = .ok as →
    r.readItems (stringifyItems items) = some bs → (as = bs ↔ SameItems r items)
  | [], _, _, boa, read => by cases boa; cases read; exact iff_of_true rfl trivial
  | item :: rest, _, _, boa, read => by
    obtain ⟨a,first,later⟩ := Eff.except_bind_inv boa
    obtain ⟨as,others,same⟩ := Eff.except_bind_inv later
    cases same
    obtain ⟨b,bs,readFirst,readRest,rfl⟩ := readItems_cons read
    rw [SameItems,List.cons.injEq,boaJson_eq_iff item a b first readFirst,boaItems_eq_iff rest as bs others readRest]

end

/-- Names that are no member's keep what was held under them. -/
theorem readMembers_lookup {texts : List (JsString × JsonText)} {held out : List (String × Json)}
    (read : r.readMembers texts held = some out) (other : ∀ member ∈ texts, Utf16.decode member.1 ≠ some name) :
    out.lookup name = held.lookup name := by
  induction texts generalizing held with
  | nil =>
    cases read
    rfl
  | cons member rest ih =>
    obtain ⟨key,text⟩ := member
    rw [JsonReader.readMembers] at read
    obtain ⟨first,decoded,later⟩ := Option.bind_eq_some_iff.mp read
    obtain ⟨json,_,later⟩ := Option.bind_eq_some_iff.mp later
    have apart : name ≠ first := by
      rintro rfl
      exact other _ List.mem_cons_self decoded
    rw [ih later fun member inside => other member (List.mem_cons_of_mem _ inside),Json.lookup_insertMember,
      if_neg apart]

theorem stringifyMembers_keys {members : List (JsString × JsValue)} (member : entry ∈ stringifyMembers members) :
    entry.1 ∈ members.map Prod.fst := by
  induction members with
  | nil => cases member
  | cons head rest ih =>
    obtain ⟨key,value⟩ := head
    rw [stringifyMembers] at member
    rw [List.map_cons]
    split at member
    · rcases List.mem_cons.mp member with rfl | later
      · exact List.mem_cons_self
      · exact List.mem_cons_of_mem _ (ih later)
    · exact List.mem_cons_of_mem _ (ih member)

mutual

/-- The integers of a value keep their values when it is printed and read. -/
theorem kept_iff : (value : JsValue) → Distinct value → ∀ out, r.readText (itemText value) = some out →
    (Kept value out ↔ Survive r value)
  | .undefined, _, _, _ => Iff.rfl
  | .null, _, _, _ => Iff.rfl
  | .bool _, _, _, _ => Iff.rfl
  | .number .nonFinite, _, _, _ => Iff.rfl
  | .string _, _, _, _ => Iff.rfl
  | .number (.finite q), _, _, read => by
    cases read
    rw [Kept,Survive]
    refine forall_congr' fun integral => ?_
    rw [← survives_iff r integral]
    constructor
    · rintro ⟨n,same,value⟩
      cases same
      exact value
    · exact fun value => ⟨_,rfl,value⟩
  | .array items, distinct, _, read => by
    obtain ⟨values,inner,rfl⟩ := Option.map_eq_some_iff.mp read
    rw [Kept,Survive,← keptItems_iff items distinct values inner]
    constructor
    · rintro ⟨_,same,kept⟩
      cases same
      exact kept
    · exact fun kept => ⟨values,rfl,kept⟩
  | .object members, distinct, _, read => by
    obtain ⟨out,inner,rfl⟩ := Option.map_eq_some_iff.mp read
    rw [Kept,Survive,← keptMembers_iff members distinct.1 distinct.2 [] out inner]
    constructor
    · rintro ⟨_,same,kept⟩
      cases same
      exact kept
    · exact fun kept => ⟨out,rfl,kept⟩
  | .inheriting _ members, distinct, _, read => by
    obtain ⟨out,inner,rfl⟩ := Option.map_eq_some_iff.mp read
    rw [Kept,Survive,← keptMembers_iff members distinct.1 distinct.2 [] out inner]
    constructor
    · rintro ⟨_,same,kept⟩
      cases same
      exact kept
    · exact fun kept => ⟨out,rfl,kept⟩

theorem keptItems_iff : (items : List JsValue) → DistinctItems items → ∀ values,
    r.readItems (stringifyItems items) = some values → (KeptItems items values ↔ SurviveItems r items)
  | [], _, _, _ => Iff.rfl
  | item :: rest, distinct, _, read => by
    obtain ⟨value,values,first,others,rfl⟩ := readItems_cons read
    rw [KeptItems,SurviveItems,← kept_iff item distinct.1 value first,← keptItems_iff rest distinct.2 values others]
    constructor
    · rintro ⟨_,_,same,kept,more⟩
      cases same
      exact ⟨kept,more⟩
    · rintro ⟨kept,more⟩
      exact ⟨value,values,rfl,kept,more⟩

theorem keptMembers_iff : (members : List (JsString × JsValue)) → (members.map Prod.fst).Nodup →
    DistinctMembers members → ∀ held out, r.readMembers (stringifyMembers members) held = some out →
    (KeptMembers members out ↔ SurviveMembers r members)
  | [], _, _, _, _, _ => Iff.rfl
  | (key,value) :: rest, nodup, distinct, held, out, read => by
    rw [List.map_cons,List.nodup_cons] at nodup
    rw [stringifyMembers] at read
    rw [KeptMembers,SurviveMembers]
    cases text : stringify value with
    | none =>
      rw [text] at read
      rw [eq_undefined text,← keptMembers_iff rest nodup.2 distinct.2 held out read]
      exact and_congr_left fun _ => iff_of_true (.inl rfl) trivial
    | some printed =>
      rw [text] at read
      dsimp only at read
      rw [JsonReader.readMembers] at read
      obtain ⟨name,decoded,later⟩ := Option.bind_eq_some_iff.mp read
      obtain ⟨json,readValue,later⟩ := Option.bind_eq_some_iff.mp later
      have defined : value ≠ .undefined := by
        rintro rfl
        cases text
      -- The later members have other names.
      have found : out.lookup name = some json := by
        rw [readMembers_lookup r later ?_,Json.lookup_insertMember,if_pos rfl]
        intro member inside same
        have equal : member.1 = key := (Utf16.encode_of_decode same).symm.trans (Utf16.encode_of_decode decoded)
        exact nodup.1 (equal ▸ stringifyMembers_keys inside)
      have own : r.readText (itemText value) = some json := by
        rw [itemText,text]
        exact readValue
      rw [← kept_iff value distinct.1 json own,← keptMembers_iff rest nodup.2 distinct.2 _ out later]
      refine and_congr_left fun _ => ?_
      constructor
      · rintro (absent | ⟨other,inner,same,listed,kept⟩)
        · exact absurd absent defined
        · rw [decoded] at same
          cases same
          rw [found] at listed
          cases listed
          exact kept
      · exact fun kept => .inr ⟨name,json,decoded,found,kept⟩

end

end Values

section Interchange
variable (r : JsonReader)

/-- A value whose objects have distinct names, as all have. -/
structure PlainValue where
  value : JsValue
  distinct : Distinct value

def isComposite : JsValue → Bool
  | .array _ | .object _ | .inheriting _ _ => true
  | .undefined | .null | .bool _ | .number _ | .string _ => false

/-- Both engines give the same JSON or both fail, and integral numbers have their values in it. -/
structure Interchangeable (v : JsValue) : Prop where
  same : (boaJson r v).toOption = (quickjsJson r v).toOption
  boa : ∀ out, boaJson r v = .ok out → Kept v out
  quickjs : ∀ out, quickjsJson r v = .ok out → Kept v out

/-- The results are right when both engines convert the value, the numbers that Boa takes by itself agree
with their texts, and printed integers survive; or when neither converts it. -/
def Right (v : JsValue) : Prop :=
  (BoaConverts v ∧ QuickjsConverts v ∧ Same r v ∧ (isComposite v = true → Survive r v)) ∨
    (¬ BoaConverts v ∧ ¬ QuickjsConverts v)

theorem asI64_of_lt {q : Rat} (small : q.num.natAbs < 2 ^ 63) : asI64 q = q.num := by
  unfold asI64
  omega

theorem quickjs_reads {v : JsValue} (composite : isComposite v = true) (quickjs : quickjsJson r v = .ok b) :
    r.readText (itemText v) = some b := by
  cases v with
  | array items =>
    rw [quickjsJson] at quickjs
    exact ((quickjsComposite_iff r rfl).mp quickjs).1
  | object members =>
    rw [quickjsJson] at quickjs
    exact ((quickjsComposite_iff r rfl).mp quickjs).1
  | inheriting prototype members =>
    rw [quickjsJson] at quickjs
    exact ((quickjsComposite_iff r rfl).mp quickjs).1
  | _ => cases composite

theorem same_iff {v : JsValue} (boa : boaJson r v = .ok a) (quickjs : quickjsJson r v = .ok b) :
    a = b ↔ Same r v := by
  cases v with
  | undefined => cases boa; cases quickjs; exact iff_of_true rfl trivial
  | null => cases boa; cases quickjs; exact iff_of_true rfl trivial
  | bool c => cases boa; cases quickjs; exact iff_of_true rfl trivial
  | number n =>
    cases n with
    | nonFinite => cases boa
    | finite q =>
      cases boa
      cases quickjs
      rw [Json.number.injEq,Same]
      by_cases integral : q.den = 1
      · by_cases small : q.num.natAbs < 2 ^ 63
        · rw [if_pos integral,if_pos ⟨integral,small⟩]
          exact iff_of_true rfl fun _ => small
        · rw [if_pos integral,if_neg fun both => small both.2]
          exact iff_of_false (numberOfI64_ne_float _ _) fun claimed => small (claimed integral)
      · rw [if_neg integral,if_neg fun both => integral both.1]
        exact iff_of_true rfl fun whole => absurd whole integral
  | string units =>
    cases boa
    rw [quickjsJson] at quickjs
    cases decoded : Utf16.decode units with
    | none =>
      rw [decoded] at quickjs
      cases quickjs
    | some s =>
      rw [decoded] at quickjs
      cases quickjs
      exact iff_of_true (congrArg Json.string (Utf16.escaped_of_decode decoded)) trivial
  | array items => exact boaJson_eq_iff r _ a b boa (quickjs_reads r rfl quickjs)
  | object members => exact boaJson_eq_iff r _ a b boa (quickjs_reads r rfl quickjs)
  | inheriting prototype members => exact boaJson_eq_iff r _ a b boa (quickjs_reads r rfl quickjs)

/-- With the same results, integral numbers have their values when printed ones survive. -/
theorem kept_result {v : JsValue} (distinct : Distinct v) (quickjs : quickjsJson r v = .ok b) (same : Same r v) :
    Kept v b ↔ (isComposite v = true → Survive r v) := by
  cases v with
  | undefined => exact iff_of_true trivial nofun
  | null => exact iff_of_true trivial nofun
  | bool c => exact iff_of_true trivial nofun
  | string units => exact iff_of_true trivial nofun
  | number n =>
    cases n with
    | nonFinite => exact iff_of_true trivial nofun
    | finite q =>
      refine iff_of_true (fun integral => ?_) nofun
      have small := same integral
      cases quickjs
      rw [if_pos ⟨integral,small⟩,asI64_of_lt small]
      refine ⟨_,rfl,?_⟩
      rw [toRat_numberOfI64 (by omega) (by omega)]
      exact (toRat_eq_iff integral _).mpr rfl
  | array items =>
    rw [kept_iff r _ distinct b (quickjs_reads r rfl quickjs)]
    exact ⟨fun survive _ => survive,fun survive => survive rfl⟩
  | object members =>
    rw [kept_iff r _ distinct b (quickjs_reads r rfl quickjs)]
    exact ⟨fun survive _ => survive,fun survive => survive rfl⟩
  | inheriting prototype members =>
    rw [kept_iff r _ distinct b (quickjs_reads r rfl quickjs)]
    exact ⟨fun survive _ => survive,fun survive => survive rfl⟩

theorem toOption_eq_none {x : Except ε α} (fails : ¬ ∃ out, x = .ok out) : x.toOption = none := by
  cases x with
  | error e => rfl
  | ok out => exact absurd ⟨out,rfl⟩ fails

theorem interchangeable_iff (v : PlainValue) : Interchangeable r v.value ↔ Right r v.value := by
  obtain ⟨v,distinct⟩ := v
  dsimp only
  unfold Right
  rw [← boaJson_ok r,← quickjsJson_ok r]
  by_cases boa : ∃ out, boaJson r v = .ok out
  · by_cases quickjs : ∃ out, quickjsJson r v = .ok out
    · obtain ⟨a,first⟩ := boa
      obtain ⟨b,second⟩ := quickjs
      have equal := same_iff r first second
      constructor
      · intro right
        have same : a = b := by
          have results := right.same
          rw [first,second] at results
          exact Option.some.inj results
        have agree := equal.mp same
        exact .inl ⟨⟨a,first⟩,⟨b,second⟩,agree,(kept_result r distinct second agree).mp (right.quickjs b second)⟩
      · rintro (⟨_,_,agree,survive⟩ | ⟨fails,_⟩)
        · obtain rfl := equal.mpr agree
          have kept := (kept_result r distinct second agree).mpr survive
          refine ⟨by rw [first,second],fun out given => ?_,fun out given => ?_⟩
          · rw [first] at given
            cases given
            exact kept
          · rw [second] at given
            cases given
            exact kept
        · exact absurd ⟨a,first⟩ fails
    · refine iff_of_false (fun right => ?_) ?_
      · obtain ⟨a,first⟩ := boa
        have results := right.same
        rw [first,toOption_eq_none quickjs] at results
        cases results
      · rintro (⟨_,converts,_⟩ | ⟨fails,_⟩)
        · exact quickjs converts
        · exact fails boa
  · by_cases quickjs : ∃ out, quickjsJson r v = .ok out
    · refine iff_of_false (fun right => ?_) ?_
      · obtain ⟨b,second⟩ := quickjs
        have results := right.same
        rw [second,toOption_eq_none boa] at results
        cases results
      · rintro (⟨converts,_⟩ | ⟨_,fails⟩)
        · exact boa converts
        · exact fails quickjs
    · refine iff_of_true ⟨?_,?_,?_⟩ (.inr ⟨boa,quickjs⟩)
      · rw [toOption_eq_none boa,toOption_eq_none quickjs]
      · exact fun out given => absurd ⟨out,given⟩ boa
      · exact fun out given => absurd ⟨out,given⟩ quickjs

def exactReader : JsonReader where
  readFloat := id
  parseError _ := "expected value"
  utf8Error _ := "invalid utf-8 sequence"

/-- The number `2 ^ 63`. -/
def largeResult : PlainValue := ⟨.number (.finite ((2 ^ 63 : Int) : Rat)),trivial⟩

/-- An object with the number `2 ^ 56` as its member. -/
def nestedResult : PlainValue :=
  ⟨.object [([0x6E],.number (.finite ((2 ^ 56 : Int) : Rat)))],List.nodup_singleton _,trivial,trivial⟩

theorem large_results_differ :
    boaJson exactReader largeResult.value = .ok (.number (.posInt 9223372036854775807)) ∧
    quickjsJson exactReader largeResult.value = .ok (.number (.float ((2 ^ 63 : Int) : Rat))) ∧
    quickjsJson exactReader nestedResult.value = .ok (.object [("n",.number (.posInt 72057594037927940))]) ∧
    ¬ Interchangeable exactReader largeResult.value ∧ ¬ Interchangeable exactReader nestedResult.value := by
  have digits : numberText ((2 ^ 56 : Int) : Rat) = .integer false 72057594037927940 ((2 ^ 56 : Int) : Rat) := by
    have shortest : printed (2 ^ 56) = 72057594037927940 := by decide
    have size : ((2 ^ 56 : Int) : Rat).num.natAbs = 2 ^ 56 := rfl
    rw [numberText_integer rfl (by decide),size,shortest]
    rfl
  have nested : quickjsJson exactReader nestedResult.value =
      .ok (.object [("n",.number (.posInt 72057594037927940))]) := by
    have read : exactReader.readText (itemText nestedResult.value) =
        some (.object [("n",.number (.posInt 72057594037927940))]) := by
      show exactReader.readText (.object [([0x6E],.number (numberText ((2 ^ 56 : Int) : Rat)))]) = _
      rw [digits]
      rfl
    unfold nestedResult
    rw [quickjsJson]
    exact (quickjsComposite_iff exactReader rfl).mpr ⟨read,by decide⟩
  refine ⟨rfl,rfl,nested,?_,?_⟩
  · intro right
    have same := right.same
    cases same
  · intro right
    obtain ⟨out,same,wrong | ⟨name,held,decoded,found,kept⟩,_⟩ := right.quickjs _ nested
    · cases wrong
    · cases same
      cases decoded
      cases found
      obtain ⟨n,same,value⟩ := kept rfl
      cases same
      exact absurd value (by decide)

end Interchange

end Scripting
end Ruuter
