import Ruuter.Json
import Ruuter.Lib.Text
import Ruuter.Lib.Utf16

/-! The JavaScript values that the script engines exchange with JSON. A string is its code units; a
number is the rational it denotes. -/
namespace Ruuter

abbrev JsString := List UInt16

/-- A number: a rational, or one of `NaN`, `Infinity` and `-Infinity`. -/
inductive JsNumber
  | finite (q : Rat)
  | nonFinite
deriving DecidableEq

/-- A plain object inherits from `Object.prototype`. An `inheriting` one has another prototype, an object
or null. The members are the own enumerable properties. -/
inductive JsValue
  | undefined
  | null
  | bool (b : Bool)
  | number (n : JsNumber)
  | string (units : JsString)
  | array (items : List JsValue)
  | object (members : List (JsString × JsValue))
  | inheriting (prototype : JsValue) (members : List (JsString × JsValue))

/-- The nearest number with 53 significant bits, of two the one with the even last bit. -/
def nearestDouble (n : Nat) : Nat :=
  if n < 2 ^ 53 then n
  else
    let unit := 2 ^ (n.log2 - 52)
    let down := n / unit
    let rest := n % unit
    if unit < 2 * rest ∨ (unit = 2 * rest ∧ down % 2 = 1) then (down + 1) * unit else down * unit

theorem nearestDouble_of_lt (small : n < 2 ^ 53) : nearestDouble n = n := if_pos small

namespace Number

/-- The value that the text of a number has in a script and in `JSON.parse`. -/
def toJs : Number → JsNumber
  | .posInt n => .finite (nearestDouble n.toNat)
  | .negInt k => .finite (-(nearestDouble (k.val + 1) : Int))
  | .float q => .finite q

end Number

namespace JsValue

/-- The object of a literal whose members are given: `__proto__` is no member, an object or null there
becomes the prototype. -/
def ofLiteral (members : List (JsString × JsValue)) : JsValue :=
  let own := members.filter (·.1 ≠ Utf16.encode "__proto__")
  match members.lookup (Utf16.encode "__proto__") with
  | some (.array items) => .inheriting (.array items) own
  | some (.object inner) => .inheriting (.object inner) own
  | some (.inheriting prototype inner) => .inheriting (.inheriting prototype inner) own
  | some .null => .inheriting .null own
  | some .undefined | some (.bool _) | some (.number _) | some (.string _) | none => .object own

mutual

/-- A JSON text evaluated as an expression of a script. -/
def literal : Json → JsValue
  | .null => .null
  | .bool b => .bool b
  | .number n => .number n.toJs
  | .string s => .string (Utf16.encode s)
  | .array items => .array (literalItems items)
  | .object members => ofLiteral (literalMembers members)

def literalItems : List Json → List JsValue
  | [] => []
  | item :: rest => literal item :: literalItems rest

def literalMembers : List (String × Json) → List (JsString × JsValue)
  | [] => []
  | (key,value) :: rest => (Utf16.encode key,literal value) :: literalMembers rest

end

mutual

/-- `JSON.parse` of a JSON text. -/
def parse : Json → JsValue
  | .null => .null
  | .bool b => .bool b
  | .number n => .number n.toJs
  | .string s => .string (Utf16.encode s)
  | .array items => .array (parseItems items)
  | .object members => .object (parseMembers members)

def parseItems : List Json → List JsValue
  | [] => []
  | item :: rest => parse item :: parseItems rest

def parseMembers : List (String × Json) → List (JsString × JsValue)
  | [] => []
  | (key,value) :: rest => (Utf16.encode key,parse value) :: parseMembers rest

end

/-- The own enumerable properties of an object that is no array. -/
def members? : JsValue → Option (List (JsString × JsValue))
  | .object members | .inheriting _ members => some members
  | .undefined | .null | .bool _ | .number _ | .string _ | .array _ => none

/-- Reading a property, short of those that the standard prototypes and arrays have. -/
def get? : JsValue → JsString → Option JsValue
  | .object members, name => members.lookup name
  | .inheriting prototype members, name => (members.lookup name).or (prototype.get? name)
  | .array items, name => do
    let index ← Text.parseU64 (← Utf16.decode name)
    if Utf16.encode index.repr = name then items[index]? else none
  | .undefined, _ | .null, _ | .bool _, _ | .number _, _ | .string _, _ => none

end JsValue
end Ruuter
