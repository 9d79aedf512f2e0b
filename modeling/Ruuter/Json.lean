import Mathlib.Algebra.Group.Int.Defs
import Mathlib.Algebra.Group.Nat.Defs
import Mathlib.Data.Rat.Defs

/-! The values steps work with: `serde_json::Value` without arbitrary precision. An object
keeps its members in key order; a number is an unsigned or a negative integer or a float. -/
namespace Ruuter

/-- `serde_json::Number`. `negInt k` is the integer `-(k + 1)`, so the two integer forms
do not overlap; a finite float is kept as the rational it denotes. -/
inductive Number
  | posInt (n : UInt64)
  | negInt (k : Fin (2 ^ 63))
  | float (q : Rat)
deriving DecidableEq

/-- `Number::as_u64`. -/
def Number.asU64 : Number → Option UInt64
  | .posInt n => some n
  | .negInt _ | .float _ => none

inductive Json
  | null
  | bool (b : Bool)
  | number (n : Number)
  | string (s : String)
  | array (items : List Json)
  | object (members : List (String × Json))

namespace Json

def ofNat (n : Nat) : Json := .number (.posInt (UInt64.ofNat n))

def asStr? : Json → Option String
  | .string s => some s
  | _ => none

def isNull : Json → Bool
  | .null => true
  | _ => false

/-- `json_kind`, `kind_of` and `json_type_name`. -/
def kind : Json → String
  | .null => "null"
  | .bool _ => "boolean"
  | .number _ => "number"
  | .string _ => "string"
  | .array _ => "array"
  | .object _ => "object"

/-- `Map::insert`: the members stay in key order. -/
def insertMember (key : String) (value : Json) : List (String × Json) → List (String × Json)
  | [] => [(key,value)]
  | (other,held) :: rest =>
    if key < other then (key,value) :: (other,held) :: rest
    else if key = other then (key,value) :: rest
    else (other,held) :: insertMember key value rest

mutual

/-- The string leaves of a value, object keys left out. -/
def strings : Json → List String
  | .string s => [s]
  | .array items => stringsList items
  | .object members => stringsMembers members
  | .null | .bool _ | .number _ => []

def stringsList : List Json → List String
  | [] => []
  | item :: rest => item.strings ++ stringsList rest

def stringsMembers : List (String × Json) → List String
  | [] => []
  | (_,value) :: rest => value.strings ++ stringsMembers rest

end

end Json
end Ruuter
