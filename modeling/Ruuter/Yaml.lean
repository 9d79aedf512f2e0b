import Ruuter.Lib.Reader

/-! YAML documents as the parser sees them (`serde_yaml_ng::Value`) and their JSON form
(`serde_json::to_value`). Keys that are numbers or booleans turn into strings on the way. -/
namespace Ruuter

inductive Yaml
  | null
  | bool (b : Bool)
  | number (n : Number)
  /-- `.inf`, `-.inf` and `.nan`. -/
  | nonFinite
  | string (s : String)
  | sequence (items : List Yaml)
  /-- Entries in source order. The last entry of a key holds. -/
  | mapping (members : List (Yaml × Yaml))
  | tagged (tag : String) (value : Yaml)

/-- How floats are printed. The text starts with a digit or a sign. -/
structure FloatText where
  text : Rat → String
  numeric : ∀ q, ∃ c rest, (text q).toList = c :: rest ∧ (c.isDigit = true ∨ c = '-')

namespace Yaml

/-- `Value::as_str` looks through tags. -/
def asStr? : Yaml → Option String
  | .string s => some s
  | .tagged _ value => value.asStr?
  | _ => none

/-- Equality of a key with a string. -/
def isString (name : String) : Yaml → Bool
  | .string s => s = name
  | _ => false

/-- `Mapping::get` with a string key. -/
def get? : List (Yaml × Yaml) → String → Option Yaml
  | [], _ => none
  | (key,value) :: rest, name =>
    (get? rest name).or (if key.isString name then some value else none)

variable (floats : FloatText)

/-- A mapping key as the key of a JSON object. -/
def keyText : Yaml → Option String
  | .string s => some s
  | .bool true => some "true"
  | .bool false => some "false"
  | .number (.posInt n) => some (toString n.toNat)
  | .number (.negInt k) => some ("-" ++ toString (k.val + 1))
  | .number (.float q) => some (floats.text q)
  | .null | .nonFinite | .sequence _ | .mapping _ | .tagged _ _ => none

/-- The members of the JSON form of a mapping. -/
def toObject (object entries : List (String × Json)) : List (String × Json) :=
  entries.foldl (fun object entry => Json.insertMember entry.1 entry.2 object) object

mutual

def toJson : Yaml → Option Json
  | .null | .nonFinite => some .null
  | .bool b => some (.bool b)
  | .number n => some (.number n)
  | .string s => some (.string s)
  | .sequence items => (toJsonList items).map .array
  | .mapping members =>
    (toJsonMembers members).map fun entries => .object (toObject [] entries)
  | .tagged tag value => (toJson value).map fun j => .object [("!" ++ tag,j)]

def toJsonList : List Yaml → Option (List Json)
  | [] => some []
  | item :: rest => (toJson item).bind fun j => (toJsonList rest).map (j :: ·)

def toJsonMembers : List (Yaml × Yaml) → Option (List (String × Json))
  | [] => some []
  | (key,value) :: rest =>
    (keyText floats key).bind fun k => (toJson value).bind fun j =>
      (toJsonMembers rest).map ((k,j) :: ·)

end

/-- Texts that only a string key can have. -/
def isFieldName (name : String) : Bool :=
  name.toList.head?.any Char.isLower && name != "true" && name != "false"

theorem toString_head (n : Nat) : ∃ c rest, (toString n).toList = c :: rest ∧ c.isDigit = true := by
  rw [Nat.toString_eq_ofList_toDigits,String.toList_ofList]
  cases digits : Nat.toDigits 10 n with
  | nil => exact absurd digits Nat.toDigits_ne_nil
  | cons c rest =>
    have first : c ∈ Nat.toDigits 10 n := by simp [digits]
    exact ⟨c,rest,rfl,Nat.isDigit_of_mem_toDigits (by decide) (by decide) first⟩

theorem not_isLower_of_isDigit {c : Char} (digit : c.isDigit = true) : c.isLower = false := by
  have lower : c.isLower = (decide ('a'.val ≤ c.val) && decide (c.val ≤ 'z'.val)) := rfl
  have digits : c.isDigit = (decide ('0'.val ≤ c.val) && decide (c.val ≤ '9'.val)) := rfl
  rw [digits,Bool.and_eq_true,decide_eq_true_eq,decide_eq_true_eq] at digit
  rw [lower,Bool.and_eq_false_iff,decide_eq_false_iff_not]
  left
  intro low
  have bound := UInt32.le_trans low digit.2
  exact absurd bound (by decide)

/-- A key whose text is a field name is that string. -/
theorem eq_string_of_keyText (field : isFieldName name = true)
    (text : keyText floats key = some name) : key = .string name := by
  have lower : ∀ c rest, name.toList = c :: rest → c.isLower = true := by
    intro c rest eq
    have := (Bool.and_eq_true_iff.mp (Bool.and_eq_true_iff.mp field).1).1
    simpa [eq] using this
  have notDigit : ∀ c rest, name.toList = c :: rest → c.isDigit = true → False := by
    intro c rest eq digit
    have := lower c rest eq
    rw [not_isLower_of_isDigit digit] at this
    cases this
  have notSign : ∀ rest, name.toList = '-' :: rest → False := by
    intro rest eq
    exact absurd (lower _ _ eq) (by decide)
  cases key with
  | string s => cases text; rfl
  | bool b =>
    cases b <;> cases text <;> exact absurd field (by decide)
  | number n =>
    cases n with
    | posInt n =>
      cases text
      obtain ⟨c,rest,eq,digit⟩ := toString_head n.toNat
      exact (notDigit c rest eq digit).elim
    | negInt k =>
      cases text
      exact (notSign (toString (k.val + 1)).toList (by simp)).elim
    | float q =>
      cases text
      obtain ⟨c,rest,eq,digit | rfl⟩ := floats.numeric q
      · exact (notDigit c rest eq digit).elim
      · exact (notSign rest eq).elim
  | _ => cases text

/-- A field of the JSON form is the JSON form of the field. -/
theorem lookup_toObject (field : isFieldName name = true)
    (given : toJsonMembers floats members = some entries) (object : List (String × Json)) :
    (toObject object entries).lookup name =
      match get? members name with
      | some value => toJson floats value
      | none => object.lookup name := by
  induction members generalizing entries object with
  | nil =>
    cases given
    rfl
  | cons member rest ih =>
    obtain ⟨key,value⟩ := member
    simp only [toJsonMembers,Option.bind_eq_some_iff,Option.map_eq_some_iff] at given
    obtain ⟨k,text,j,converted,others,given,rfl⟩ := given
    have tail := ih given (Json.insertMember k j object)
    simp only [toObject,List.foldl_cons] at tail ⊢
    rw [tail,get?]
    cases get? rest name with
    | some found => rfl
    | none =>
      simp only [Option.none_or,Json.lookup_insertMember]
      by_cases same : name = k
      · subst same
        have key := eq_string_of_keyText floats field text
        simp [key,isString,converted]
      · have other : key.isString name = false := by
          cases key with
          | string s =>
            cases text
            simpa [isString,eq_comm] using same
          | _ => rfl
        simp [same,other]

end Yaml
end Ruuter
