import Ruuter.Json
import Ruuter.Lib.Search
import Ruuter.Lib.Text

/-! The compact JSON text of a value (`serde_json::to_string`), and what a search of it finds: a pattern
without JSON punctuation is found in one of the texts of the value, never across them. -/
namespace Ruuter

/-- How floats are written: with digits, signs, a point and an exponent. -/
structure FloatWriter where
  text : Rat → String
  numeric : ∀ q, ∀ c ∈ (text q).toList, c.isDigit = true ∨ c ∈ ['-','+','.','e']

namespace Json

section Writer
variable (w : FloatWriter)

/-- `format_escaped_str_contents`, one character. -/
def escapedChar (c : Char) : List Char :=
  if c = '"' then ['\\','"']
  else if c = '\\' then ['\\','\\']
  else if c = '\x08' then ['\\','b']
  else if c = '\x0c' then ['\\','f']
  else if c = '\n' then ['\\','n']
  else if c = '\r' then ['\\','r']
  else if c = '\t' then ['\\','t']
  else if c.toNat < 0x20 then
    ['\\','u','0','0',Nat.digitChar (c.toNat / 16),Nat.digitChar (c.toNat % 16)]
  else [c]

def numberChars : Number → List Char
  | .posInt n => n.toNat.repr.toList
  | .negInt k => '-' :: (k.val + 1).repr.toList
  | .float q => (w.text q).toList

mutual

def chars : Json → List Char
  | .null => ['n','u','l','l']
  | .bool true => ['t','r','u','e']
  | .bool false => ['f','a','l','s','e']
  | .number n => numberChars w n
  | .string s => '"' :: (s.toList.flatMap escapedChar ++ ['"'])
  | .array items => '[' :: (charsItems items ++ [']'])
  | .object members => '{' :: (charsMembers members ++ ['}'])

def charsItems : List Json → List Char
  | [] => []
  | item :: rest => chars item ++ ((if rest.isEmpty then [] else [',']) ++ charsItems rest)

def charsMembers : List (String × Json) → List Char
  | [] => []
  | (name,value) :: rest =>
    '"' :: (name.toList.flatMap escapedChar ++ '"' :: ':' :: (chars value ++
      ((if rest.isEmpty then [] else [',']) ++ charsMembers rest)))

end

end Writer

mutual

/-- The strings of a value and the keys of its objects. -/
def texts : Json → List String
  | .string s => [s]
  | .array items => textsItems items
  | .object members => textsMembers members
  | .null | .bool _ | .number _ => []

def textsItems : List Json → List String
  | [] => []
  | item :: rest => texts item ++ textsItems rest

def textsMembers : List (String × Json) → List String
  | [] => []
  | (name,value) :: rest => name :: (texts value ++ textsMembers rest)

end

mutual

theorem strings_subset_texts : (j : Json) → ∀ s ∈ j.strings, s ∈ j.texts
  | .string _, _, member => member
  | .array items, s, member => stringsList_subset items s member
  | .object members, s, member => stringsMembers_subset members s member

theorem stringsList_subset : (items : List Json) → ∀ s ∈ stringsList items, s ∈ textsItems items
  | item :: rest, s, member => by
    rcases List.mem_append.mp member with here | later
    · exact List.mem_append_left _ (strings_subset_texts item s here)
    · exact List.mem_append_right _ (stringsList_subset rest s later)

theorem stringsMembers_subset :
    (members : List (String × Json)) → ∀ s ∈ stringsMembers members, s ∈ textsMembers members
  | (name,value) :: rest, s, member => by
    refine List.mem_cons_of_mem name ?_
    rcases List.mem_append.mp member with here | later
    · exact List.mem_append_left _ (strings_subset_texts value s here)
    · exact List.mem_append_right _ (stringsMembers_subset rest s later)

end

section Fold

/-- How a search compares characters. -/
def fold (insensitive : Bool) (c : Char) : Char := if insensitive then c.toLower else c

/-- The characters that JSON escapes in a string. -/
def isEscaped (c : Char) : Bool := c = '"' || c = '\\' || c.toNat < 0x20

theorem toNat_toLower (c : Char) : c.toLower.toNat = if 65 ≤ c.toNat ∧ c.toNat ≤ 90 then c.toNat + 32 else c.toNat := by
  unfold Char.toLower
  split
  · rename_i upper
    have low : 65 ≤ c.toNat := upper.1
    have high : c.toNat ≤ 90 := upper.2
    rw [if_pos ⟨low,high⟩]
    show (c.val + ('a'.val - 'A'.val)).toNat = c.toNat + 32
    rw [UInt32.toNat_add]
    show (c.toNat + 32) % 2 ^ 32 = _
    omega
  · rename_i other
    exact (if_neg other).symm

theorem fold_other (insensitive : Bool) (other : c.toNat < 65 ∨ 90 < c.toNat) : fold insensitive c = c := by
  unfold fold
  cases insensitive with
  | false => rfl
  | true =>
    apply Char.toNat_inj.mp
    rw [if_pos rfl,toNat_toLower,if_neg (by omega)]

/-- A character outside the letters is only met by itself. -/
theorem fold_eq_iff (insensitive : Bool) (outside : d.toNat < 65 ∨ (90 < d.toNat ∧ d.toNat < 97) ∨ 122 < d.toNat) :
    fold insensitive c = d ↔ c = d := by
  constructor
  · rintro rfl
    unfold fold at outside ⊢
    cases insensitive with
    | false => rfl
    | true =>
      rw [if_pos rfl] at outside ⊢
      rw [toNat_toLower] at outside
      apply Char.toNat_inj.mp
      rw [toNat_toLower]
      split at outside <;> split <;> omega
  · rintro rfl
    exact fold_other insensitive (by omega)

end Fold

section Escapes

theorem isEscaped_iff : isEscaped c = true ↔ c = '"' ∨ c = '\\' ∨ c.toNat < 0x20 := by
  unfold isEscaped
  rw [Bool.or_eq_true,Bool.or_eq_true,decide_eq_true_eq,decide_eq_true_eq,decide_eq_true_eq,or_assoc]

theorem isEscaped_fold (insensitive : Bool) (c : Char) : isEscaped (fold insensitive c) = isEscaped c := by
  have control : (fold insensitive c).toNat < 0x20 ↔ c.toNat < 0x20 := by
    unfold fold
    cases insensitive with
    | false => rfl
    | true =>
      rw [if_pos rfl,toNat_toLower]
      split <;> omega
  rw [Bool.eq_iff_iff,isEscaped_iff,isEscaped_iff,fold_eq_iff insensitive (by decide),fold_eq_iff insensitive (by decide),control]

theorem escapedChar_plain (plain : isEscaped c = false) : escapedChar c = [c] := by
  have other : ¬ (c = '"' ∨ c = '\\' ∨ c.toNat < 0x20) := fun given => by
    rw [isEscaped_iff.mpr given] at plain
    cases plain
  rw [not_or,not_or] at other
  obtain ⟨quote,mark,control⟩ := other
  have apart {d : Char} (low : d.toNat < 0x20) : c ≠ d := fun same => control (same ▸ low)
  unfold escapedChar
  rw [if_neg quote,if_neg mark,if_neg (apart (by decide)),if_neg (apart (by decide)),if_neg (apart (by decide)),
    if_neg (apart (by decide)),if_neg (apart (by decide)),if_neg control]

/-- The escape sequences: a backslash, and no letter that starts a reference. -/
theorem escapedChar_marked (insensitive : Bool) (escaped : isEscaped c = true) :
    (∃ tail, (escapedChar c).map (fold insensitive) = '\\' :: tail) ∧ 'i' ∉ (escapedChar c).map (fold insensitive) := by
  have shape (d : Char) (sequence : (escapedChar d).head? = some '\\' ∧ 'i' ∉ (escapedChar d).map (fold insensitive)) :
      (∃ tail, (escapedChar d).map (fold insensitive) = '\\' :: tail) ∧
        'i' ∉ (escapedChar d).map (fold insensitive) := by
    obtain ⟨first,fresh⟩ := sequence
    obtain ⟨tail,same⟩ := List.head?_eq_some_iff.mp first
    exact ⟨⟨tail.map (fold insensitive),by rw [same,List.map_cons,fold_other insensitive (by decide)]⟩,fresh⟩
  apply shape
  rcases isEscaped_iff.mp escaped with rfl | rfl | control
  · cases insensitive <;> decide
  · cases insensitive <;> decide
  · have all : ∀ n < 0x20, (escapedChar (Char.ofNat n)).head? = some '\\' ∧
        'i' ∉ (escapedChar (Char.ofNat n)).map (fold insensitive) := by
      cases insensitive <;> decide +kernel
    have here := all c.toNat control
    rwa [Char.ofNat_toNat] at here

/-- The strings of JSON, as they are compared. -/
def escaping (insensitive : Bool) : Search.Escaping Char Char where
  write c := (escapedChar c).map (fold insensitive)
  plain := fold insensitive
  escapes := isEscaped
  mark := '\\'
  quote := '"'
  apart := by decide
  kept c plain := by
    rw [escapedChar_plain plain]
    refine ⟨rfl,?_⟩
    intro same
    obtain rfl := (fold_eq_iff insensitive (by decide)).mp same
    cases plain
  marked c escaped := (escapedChar_marked insensitive escaped).1

theorem escaping_starts (insensitive : Bool) : (escaping insensitive).Starts 'i' :=
  fun _ escaped => (escapedChar_marked insensitive escaped).2

theorem escaping_avoids (insensitive : Bool) (smooth : ∀ c ∈ p, isEscaped c = false) :
    (escaping insensitive).Avoids p := by
  refine ⟨fun inside => (by cases smooth _ inside),?_⟩
  intro c escaped inside
  have small : c.toNat < 65 ∨ 90 < c.toNat := by
    rcases isEscaped_iff.mp escaped with rfl | rfl | control
    · decide
    · decide
    · omega
  have held : fold insensitive c ∈ p := inside
  rw [fold_other insensitive small] at held
  exact Bool.false_ne_true ((smooth c held).symm.trans escaped)

theorem flatMap_escaped (insensitive : Bool) (s : String) :
    (s.toList.flatMap escapedChar).map (fold insensitive) = s.toList.flatMap (escaping insensitive).write := by
  rw [List.map_flatMap]
  rfl

end Escapes

section Search
variable {w : FloatWriter} {insensitive : Bool} {p u v : List Char}

theorem numberChars_fresh (n : Number) : 'i' ∉ (numberChars w n).map (fold insensitive) := by
  have numeric : ∀ c ∈ numberChars w n, c.isDigit = true ∨ c ∈ ['-','+','.','e'] := by
    have digits (n : Nat) : ∀ c ∈ n.repr.toList, c.isDigit = true ∨ c ∈ ['-','+','.','e'] := by
      intro c member
      rw [Nat.toList_repr] at member
      exact .inl (Nat.isDigit_of_mem_toDigits (by decide) (by decide) member)
    cases n with
    | posInt n => exact digits n.toNat
    | negInt k =>
      intro c member
      rcases List.mem_cons.mp member with rfl | member
      · exact .inr List.mem_cons_self
      · exact digits _ c member
    | float q => exact w.numeric q
  intro inside
  obtain ⟨c,member,same⟩ := List.mem_map.mp inside
  rcases numeric c member with digit | sign
  · have ranges : c.isDigit = (decide ('0'.val ≤ c.val) && decide (c.val ≤ '9'.val)) := rfl
    simp only [ranges,Bool.and_eq_true,decide_eq_true_eq,UInt32.le_iff_toNat_le] at digit
    have high : c.toNat ≤ 57 := digit.2
    rw [fold_other insensitive (by omega)] at same
    subst same
    revert high
    decide
  · have signs : ∀ d ∈ ['-','+','.','e'], fold insensitive d ≠ 'i' := by
      apply Text.forall_mem_of_all
      cases insensitive <;> decide
    exact signs c sign same

theorem comma_fresh (last : Bool) : 'i' ∉ (if last then [] else [',']).map (fold insensitive) := by
  cases last <;> cases insensitive <;> decide

theorem literal_fresh {x : List Char} (fresh : 'i' ∉ x.map Char.toLower ∧ 'i' ∉ x) :
    'i' ∉ x.map (fold insensitive) := by
  cases insensitive with
  | false =>
    have same : x.map (fold false) = x := List.map_id x
    rw [same]
    exact fresh.2
  | true => exact fresh.1

theorem exists_mem_append {first second : List String} {P : String → Prop} :
    (∃ s ∈ first ++ second, P s) ↔ (∃ s ∈ first, P s) ∨ ∃ s ∈ second, P s := by
  simp only [List.mem_append,or_and_right,exists_or]

/-- What can stand behind a string in the text of a value, or in lines of them. -/
def closers : List Char := [',',']','}',':','\n']

def Closes (rest : List Char) : Prop := ∀ c ∈ rest.head?, c ∈ closers

theorem closes_cons (insensitive : Bool) (inside : c ∈ closers) (rest : List Char) :
    Closes ([c].map (fold insensitive) ++ rest) := by
  have outside : ∀ d ∈ closers, d.toNat < 65 ∨ 90 < d.toNat :=
    Text.forall_mem_of_all (by decide)
  rintro d ⟨⟩
  rwa [fold_other insensitive (outside c inside)]

theorem closes_comma (last : Bool) (closes : last = true → Closes rest) :
    Closes ((if last then [] else [',']).map (fold insensitive) ++ rest) := by
  cases last with
  | true => exact closes rfl
  | false => exact closes_cons insensitive (by decide) _

/-- The search of a string finds the pattern in its text or behind it. -/
def Searches (insensitive : Bool) (p : List Char) (Found : String → Prop) : Prop :=
  ∀ s rest, Closes rest → ('i' :: p <:+: (s.toList.flatMap escapedChar).map (fold insensitive) ++ '"' :: rest ↔
    Found s ∨ 'i' :: p <:+: rest)

variable {Found : String → Prop}

mutual

/-- A pattern is found in the texts of a value, or behind it. -/
theorem infix_chars (searches : Searches insensitive p Found) : (j : Json) → (rest : List Char) → Closes rest →
    ('i' :: p <:+: (chars w j).map (fold insensitive) ++ rest ↔ (∃ s ∈ j.texts, Found s) ∨ 'i' :: p <:+: rest)
  | .null, rest, _ => by
    rw [chars,Search.infix_skip (literal_fresh (by decide))]
    simp [texts]
  | .bool true, rest, _ => by
    rw [chars,Search.infix_skip (literal_fresh (by decide))]
    simp [texts]
  | .bool false, rest, _ => by
    rw [chars,Search.infix_skip (literal_fresh (by decide))]
    simp [texts]
  | .number n, rest, _ => by
    rw [chars,Search.infix_skip (numberChars_fresh n)]
    simp [texts]
  | .string s, rest, closes => by
    have parts : (chars w (.string s)).map (fold insensitive) ++ rest =
        ['"'].map (fold insensitive) ++ ((s.toList.flatMap escapedChar).map (fold insensitive) ++ '"' :: rest) := by
      simp [chars,fold_other insensitive (show '"'.toNat < 65 ∨ 90 < '"'.toNat by decide)]
    rw [parts,Search.infix_skip (literal_fresh (by decide)),searches s rest closes]
    simp [texts]
  | .array items, rest, _ => by
    have parts : (chars w (.array items)).map (fold insensitive) ++ rest =
        ['['].map (fold insensitive) ++
          ((charsItems w items).map (fold insensitive) ++ ([']'].map (fold insensitive) ++ rest)) := by
      simp [chars]
    rw [parts,Search.infix_skip (literal_fresh (by decide)),
      infix_charsItems searches items _ (closes_cons insensitive (by decide) rest),Search.infix_skip (literal_fresh (by decide))]
    rfl
  | .object members, rest, _ => by
    have parts : (chars w (.object members)).map (fold insensitive) ++ rest =
        ['{'].map (fold insensitive) ++
          ((charsMembers w members).map (fold insensitive) ++ (['}'].map (fold insensitive) ++ rest)) := by
      simp [chars]
    rw [parts,Search.infix_skip (literal_fresh (by decide)),
      infix_charsMembers searches members _ (closes_cons insensitive (by decide) rest),
      Search.infix_skip (literal_fresh (by decide))]
    rfl

theorem infix_charsItems (searches : Searches insensitive p Found) :
    (items : List Json) → (rest : List Char) → Closes rest →
    ('i' :: p <:+: (charsItems w items).map (fold insensitive) ++ rest ↔
      (∃ s ∈ textsItems items, Found s) ∨ 'i' :: p <:+: rest)
  | [], rest, _ => by simp [charsItems,textsItems]
  | item :: later, rest, closes => by
    have behind : later.isEmpty = true → Closes ((charsItems w later).map (fold insensitive) ++ rest) := by
      intro last
      rwa [List.isEmpty_iff.mp last]
    rw [charsItems,List.map_append,List.map_append,List.append_assoc,List.append_assoc,
      infix_chars searches item _ (closes_comma later.isEmpty behind),Search.infix_skip (comma_fresh later.isEmpty),
      infix_charsItems searches later rest closes,textsItems,exists_mem_append,or_assoc]

theorem infix_charsMembers (searches : Searches insensitive p Found) :
    (members : List (String × Json)) → (rest : List Char) →
    Closes rest → ('i' :: p <:+: (charsMembers w members).map (fold insensitive) ++ rest ↔
      (∃ s ∈ textsMembers members, Found s) ∨ 'i' :: p <:+: rest)
  | [], rest, _ => by simp [charsMembers,textsMembers]
  | (name,value) :: later, rest, closes => by
    have parts : (charsMembers w ((name,value) :: later)).map (fold insensitive) ++ rest =
        ['"'].map (fold insensitive) ++ ((name.toList.flatMap escapedChar).map (fold insensitive) ++ '"' ::
          ([':'].map (fold insensitive) ++ ((chars w value).map (fold insensitive) ++
            ((if later.isEmpty then [] else [',']).map (fold insensitive) ++
              ((charsMembers w later).map (fold insensitive) ++ rest))))) := by
      simp [charsMembers,fold_other insensitive (show '"'.toNat < 65 ∨ 90 < '"'.toNat by decide)]
    have behind : later.isEmpty = true → Closes ((charsMembers w later).map (fold insensitive) ++ rest) := by
      intro last
      rwa [List.isEmpty_iff.mp last]
    rw [parts,Search.infix_skip (literal_fresh (by decide)),
      searches name _ (closes_cons insensitive (by decide) _),Search.infix_skip (literal_fresh (by decide)),
      infix_chars searches value _ (closes_comma later.isEmpty behind),Search.infix_skip (comma_fresh later.isEmpty),
      infix_charsMembers searches later rest closes,textsMembers]
    simp only [List.mem_cons,List.mem_append,or_and_right,exists_or,exists_eq_left,or_assoc]

end

/-- A pattern that JSON does not escape is searched in the texts themselves. -/
theorem searches_plain (insensitive : Bool) (smooth : ∀ c ∈ 'i' :: p, isEscaped c = false) :
    Searches insensitive p fun s => 'i' :: p <:+: s.toList.map (fold insensitive) := by
  intro s rest _
  have absent : '"' ∉ 'i' :: p := fun inside => (by cases smooth _ inside)
  rw [Search.infix_append_cons absent,flatMap_escaped,
    Search.Escaping.infix_iff (escaping_avoids insensitive smooth) (escaping_starts insensitive)]
  rfl

/-- A pattern with a quote is not found in a text: its quotes are written behind a backslash. The
quote that ends the text is none of the pattern when the rest of the pattern cannot follow. -/
theorem searches_quote (insensitive : Bool) (smooth : ∀ c ∈ 'i' :: u, isEscaped c = false)
    (opens : ∃ d ∈ v.head?, d ∉ closers) :
    Searches insensitive (u ++ '"' :: v) fun _ => False := by
  intro s rest closes
  have apart : ¬ v <+: rest := by
    obtain ⟨d,first,outside⟩ := opens
    rintro ⟨tail,rfl⟩
    apply outside
    apply closes d
    cases v with
    | nil => cases first
    | cons c v => exact first
  rw [false_or,flatMap_escaped]
  exact Search.Escaping.quoted_infix (fun inside => by cases smooth _ inside) (fun inside => by cases smooth _ inside)
    (escaping_starts insensitive) apart

end Search

end Json
end Ruuter
