import Ruuter.JsonText
import Ruuter.Redaction

/-! The attributes of the line that is logged for a step (`StepLogExtras` of `src/steps/mod.rs`): what the
text says of the pairs it was made of. -/
namespace Ruuter
namespace Logging

/-- The name of an attribute: a constant of the source. -/
structure LogKey where
  name : String
  plain : ∀ c ∈ name.toList, c ∉ [' ','=','"','\n','\r']

inductive StepLogEntry
  | value (value : Json)
  | preformatted (text : String)

structure StepLogExtras where
  entries : List (LogKey × StepLogEntry) := []

namespace StepLogExtras

def push (extras : StepLogExtras) (key : LogKey) (value : Json) : StepLogExtras :=
  ⟨extras.entries ++ [(key,.value value)]⟩

section Display
variable (w : FloatWriter)

def entryText (entry : LogKey × StepLogEntry) : String :=
  match entry.2 with
  | .value (.string s) => entry.1.name ++ "=\"" ++ sanitizeLogValue s ++ "\""
  | .value .null => entry.1.name ++ "=null"
  | .value v => entry.1.name ++ "=" ++ String.ofList (v.chars w)
  | .preformatted s => entry.1.name ++ "=" ++ sanitizeLogValue s

def writeEntries (first : Bool) : List (LogKey × StepLogEntry) → String
  | [] => ""
  | entry :: rest => (if first then "" else " ") ++ entryText w entry ++ writeEntries false rest

def display (extras : StepLogExtras) : String := writeEntries w true extras.entries

end Display

end StepLogExtras

/-- What a line says of one value: a text in quotes, or a word. -/
inductive LogValue
  | quoted (text : String)
  | word (text : String)
deriving DecidableEq

section Reader

/-- The value behind `=`, and what follows it. -/
def readValue : List Char → Option (LogValue × List Char)
  | '"' :: text =>
    match text.span (· ≠ '"') with
    | (value,_ :: rest) => some (.quoted (String.ofList value),rest)
    | (_,[]) => none
  | text => some (.word (String.ofList (text.takeWhile (· ≠ ' '))),text.dropWhile (· ≠ ' '))

/-- The pairs of a text, at most so many. -/
def readPairs : Nat → List Char → Option (List (String × LogValue))
  | 0, _ => none
  | more + 1, text =>
    match text.span (· ≠ '=') with
    | (_,[]) => none
    | (key,_ :: text) => do
      let (value,rest) ← readValue text
      match rest with
      | [] => return [(String.ofList key,value)]
      | _ :: rest => return (String.ofList key,value) :: (← readPairs more rest)

/-- The pairs that a line shows. -/
def readAttrs (attrs : String) : Option (List (String × LogValue)) :=
  if attrs = "" then some [] else readPairs attrs.length attrs.toList

end Reader

section Lines
variable (w : FloatWriter)

/-- A text on one line. -/
def Unbroken (text : List Char) : Prop := ∀ c ∈ text, c ≠ '\n' ∧ c ≠ '\r'

@[simp] theorem unbroken_nil : Unbroken [] := fun _ member => nomatch member

@[simp] theorem unbroken_cons : Unbroken (c :: text) ↔ (c ≠ '\n' ∧ c ≠ '\r') ∧ Unbroken text := List.forall_mem_cons

@[simp] theorem unbroken_append : Unbroken (text ++ later) ↔ Unbroken text ∧ Unbroken later := List.forall_mem_append

theorem unbroken_flatMap {f : Char → List Char} (each : ∀ c, Unbroken (f c)) (text : List Char) :
    Unbroken (text.flatMap f) := by
  intro c member
  obtain ⟨d,_,member⟩ := List.mem_flatMap.mp member
  exact each d c member

theorem unbroken_sanitized (s : String) : Unbroken (sanitizeLogValue s).toList := by
  intro c member
  rw [sanitizeLogValue,String.toList_ofList] at member
  obtain ⟨d,_,rfl⟩ := List.mem_map.mp member
  split
  · decide
  · rename_i other
    exact not_or.mp other

theorem unbroken_key (key : LogKey) : Unbroken key.name.toList := by
  intro c member
  have plain := key.plain c member
  simp only [List.mem_cons,not_or] at plain
  exact ⟨plain.2.2.2.1,plain.2.2.2.2.1⟩

theorem unbroken_escapedChar (c : Char) : Unbroken (Json.escapedChar c) := by
  have digits : ∀ n < 0x20, (Nat.digitChar (n / 16) ≠ '\n' ∧ Nat.digitChar (n / 16) ≠ '\r') ∧
      Nat.digitChar (n % 16) ≠ '\n' ∧ Nat.digitChar (n % 16) ≠ '\r' := by decide
  unfold Json.escapedChar
  split_ifs with quote slash back feed newline carriage tab control
  iterate 7 simp
  · simp [digits c.toNat control]
  · simp [newline,carriage]

theorem numberChars_ne (n : Number) (member : c ∈ Json.numberChars w n) : c ∉ [' ','"','\n','\r'] := by
  have digits : ∀ k : Nat, ∀ c ∈ k.repr.toList, c.isDigit = true := by
    intro k c member
    rw [Nat.toList_repr] at member
    exact Nat.isDigit_of_mem_toDigits (by decide) (by decide) member
  have known : c.isDigit = true ∨ c ∈ ['-','+','.','e'] := by
    cases n with
    | posInt k => exact .inl (digits _ c member)
    | negInt k =>
      rcases List.mem_cons.mp member with rfl | member
      · exact .inr (by decide)
      · exact .inl (digits _ c member)
    | float q => exact w.numeric q c member
  intro other
  simp only [List.mem_cons,List.not_mem_nil,or_false] at other
  rcases other with rfl | rfl | rfl | rfl <;> exact absurd known (by decide)

theorem unbroken_comma (last : Bool) : Unbroken (if last then [] else [',']) := by
  cases last <;> simp

mutual

/-- JSON is written on one line. -/
theorem unbroken_chars : (j : Json) → Unbroken (j.chars w)
  | .null => by simp [Json.chars]
  | .bool true => by simp [Json.chars]
  | .bool false => by simp [Json.chars]
  | .number n => by
    intro c member
    have other := numberChars_ne w n member
    simp only [List.mem_cons,not_or] at other
    exact ⟨other.2.2.1,other.2.2.2.1⟩
  | .string s => by simp [Json.chars,unbroken_flatMap unbroken_escapedChar]
  | .array items => by simp [Json.chars,unbroken_charsItems items]
  | .object members => by simp [Json.chars,unbroken_charsMembers members]

theorem unbroken_charsItems : (items : List Json) → Unbroken (Json.charsItems w items)
  | [] => unbroken_nil
  | item :: rest => by
    rw [Json.charsItems,unbroken_append,unbroken_append]
    exact ⟨unbroken_chars item,unbroken_comma rest.isEmpty,unbroken_charsItems rest⟩

theorem unbroken_charsMembers : (members : List (String × Json)) → Unbroken (Json.charsMembers w members)
  | [] => unbroken_nil
  | (name,value) :: rest => by
    simp only [Json.charsMembers,unbroken_cons,unbroken_append,unbroken_flatMap unbroken_escapedChar,
      unbroken_chars value,unbroken_comma rest.isEmpty,unbroken_charsMembers rest]
    decide

end

theorem unbroken_entryText (entry : LogKey × StepLogEntry) : Unbroken (StepLogExtras.entryText w entry).toList := by
  have key := unbroken_key entry.1
  unfold StepLogExtras.entryText
  split
  · rename_i s _
    simp [key,unbroken_sanitized s]
  · simp [key]
  · rename_i v _ _ _
    simp [key,unbroken_chars w v]
  · rename_i s _
    simp [key,unbroken_sanitized s]

theorem unbroken_writeEntries (first : Bool) (entries : List (LogKey × StepLogEntry)) :
    Unbroken (StepLogExtras.writeEntries w first entries).toList := by
  induction entries generalizing first with
  | nil => exact unbroken_nil
  | cons entry rest ih =>
    have blank : Unbroken (if first then "" else " ").toList := by cases first <;> simp
    simp only [StepLogExtras.writeEntries,String.toList_append,unbroken_append]
    exact ⟨⟨blank,unbroken_entryText w entry⟩,ih false⟩

end Lines

section Recovery
variable (w : FloatWriter)

/-- The values whose ends a line shows: texts without a double quote, and words. -/
def Delimited : StepLogEntry → Prop
  | .value (.string s) => '"' ∉ s.toList
  | .value .null | .value (.bool _) | .value (.number _) => True
  | .value (.array _) | .value (.object _) | .preformatted _ => False

/-- What a line shows of a value. -/
def shown : StepLogEntry → LogValue
  | .value (.string s) => .quoted (sanitizeLogValue s)
  | .value v => .word (String.ofList (v.chars w))
  | .preformatted s => .word (sanitizeLogValue s)

theorem span_ne (c : Char) (text rest : List Char) (clean : c ∉ text) (ends : rest = [] ∨ ∃ later, rest = c :: later) :
    (text ++ rest).span (· ≠ c) = (text,rest) := by
  have each : ∀ d ∈ text, decide (d ≠ c) = true := fun d member => decide_eq_true fun same => clean (same ▸ member)
  rw [List.span_eq_takeWhile_dropWhile,List.takeWhile_append_of_pos each,List.dropWhile_append_of_pos each]
  rcases ends with rfl | ⟨later,rfl⟩
  · simp
  · simp

theorem sanitized_noQuote (clean : '"' ∉ s.toList) : '"' ∉ (sanitizeLogValue s).toList := by
  intro member
  rw [sanitizeLogValue,String.toList_ofList] at member
  obtain ⟨d,inside,same⟩ := List.mem_map.mp member
  split at same
  · exact absurd same (by decide)
  · exact clean (same ▸ inside)

/-- A word is read up to the blank behind it. -/
theorem readValue_word {word rest : List Char} (clean : ∀ c ∈ word, c ≠ ' ' ∧ c ≠ '"')
    (ends : rest = [] ∨ ∃ later, rest = ' ' :: later) :
    readValue (word ++ rest) = some (.word (String.ofList word),rest) := by
  have cut := span_ne ' ' word rest (fun member => (clean ' ' member).1 rfl) ends
  rw [List.span_eq_takeWhile_dropWhile,Prod.mk.injEq] at cut
  have unquoted : ∀ text, word ++ rest ≠ '"' :: text := by
    intro text same
    cases word with
    | nil =>
      rcases ends with rfl | ⟨later,rfl⟩
      · cases same
      · cases same
    | cons c word =>
      rw [List.cons_append,List.cons.injEq] at same
      exact (clean c List.mem_cons_self).2 same.1
  rw [readValue.eq_def]
  split
  · rename_i text same
    exact absurd same (unquoted text)
  · rw [cut.1,cut.2]

theorem readValue_quoted {s : String} (clean : '"' ∉ s.toList) (rest : List Char) :
    readValue ('"' :: (s.toList ++ '"' :: rest)) = some (.quoted s,rest) := by
  have cut := span_ne '"' s.toList ('"' :: rest) clean (.inr ⟨rest,rfl⟩)
  simp only [readValue,cut,String.ofList_toList]

/-- The text of an entry: its key, and what its value is read from. -/
theorem entryText_reads (entry : LogKey × StepLogEntry) (delimited : Delimited entry.2) : ∃ text,
    (StepLogExtras.entryText w entry).toList = entry.1.name.toList ++ '=' :: text ∧
    ∀ rest, (rest = [] ∨ ∃ later, rest = ' ' :: later) → readValue (text ++ rest) = some (shown w entry.2,rest) := by
  obtain ⟨key,entry⟩ := entry
  have word (v : Json) (text : StepLogExtras.entryText w (key,.value v) = key.name ++ "=" ++ String.ofList (v.chars w))
      (clean : ∀ c ∈ v.chars w, c ≠ ' ' ∧ c ≠ '"') : ∃ text,
      (StepLogExtras.entryText w (key,.value v)).toList = key.name.toList ++ '=' :: text ∧
      ∀ rest, (rest = [] ∨ ∃ later, rest = ' ' :: later) →
        readValue (text ++ rest) = some (.word (String.ofList (v.chars w)),rest) := by
    refine ⟨v.chars w,?_,fun rest ends => readValue_word clean ends⟩
    rw [text,String.toList_append,String.toList_append,List.append_assoc]
    exact congrArg (fun later => key.name.toList ++ '=' :: later) String.toList_ofList
  cases entry with
  | preformatted s => exact delimited.elim
  | value v =>
    cases v with
    | string s =>
      refine ⟨'"' :: ((sanitizeLogValue s).toList ++ ['"']),?_,fun rest _ => ?_⟩
      · simp [StepLogExtras.entryText]
      · rw [List.cons_append,List.append_assoc]
        exact readValue_quoted (sanitized_noQuote delimited) rest
    | null => exact word .null (by rw [String.append_assoc]; rfl) (by simp [Json.chars])
    | bool b => exact word (.bool b) rfl (by cases b <;> simp [Json.chars])
    | number n =>
      refine word (.number n) rfl fun c member => ?_
      have other := numberChars_ne w n member
      simp only [List.mem_cons,not_or] at other
      exact ⟨other.1,other.2.1⟩
    | array items => exact delimited.elim
    | object members => exact delimited.elim

theorem writeEntries_later (entries : List (LogKey × StepLogEntry)) (nonempty : entries ≠ []) :
    StepLogExtras.writeEntries w false entries = " " ++ StepLogExtras.writeEntries w true entries := by
  cases entries with
  | nil => exact absurd rfl nonempty
  | cons entry rest => simp [StepLogExtras.writeEntries,String.append_assoc]

theorem readPairs_writeEntries (entry : LogKey × StepLogEntry) (rest : List (LogKey × StepLogEntry))
    (delimited : ∀ one ∈ entry :: rest, Delimited one.2) (extra : Nat) :
    readPairs ((entry :: rest).length + extra) (StepLogExtras.writeEntries w true (entry :: rest)).toList =
      some ((entry :: rest).map fun one => (one.1.name,shown w one.2)) := by
  induction rest generalizing entry with
  | nil =>
    obtain ⟨text,split,reads⟩ := entryText_reads w entry (delimited entry List.mem_cons_self)
    have key := span_ne '=' entry.1.name.toList ('=' :: text)
      (fun member => entry.1.plain _ member (by decide)) (.inr ⟨text,rfl⟩)
    have value := reads [] (.inl rfl)
    rw [List.append_nil] at value
    have line : (StepLogExtras.writeEntries w true [entry]).toList = entry.1.name.toList ++ '=' :: text := by
      simp [StepLogExtras.writeEntries,split]
    rw [line,List.length_singleton,Nat.add_comm,readPairs]
    simp only [key,value,Option.bind_eq_bind,Option.bind_some,String.ofList_toList]
    rfl
  | cons next rest ih =>
    obtain ⟨text,split,reads⟩ := entryText_reads w entry (delimited entry List.mem_cons_self)
    have later := ih next fun one member => delimited one (List.mem_cons_of_mem _ member)
    have key := span_ne '=' entry.1.name.toList
      ('=' :: (text ++ ' ' :: (StepLogExtras.writeEntries w true (next :: rest)).toList))
      (fun member => entry.1.plain _ member (by decide)) (.inr ⟨_,rfl⟩)
    have value := reads (' ' :: (StepLogExtras.writeEntries w true (next :: rest)).toList) (.inr ⟨_,rfl⟩)
    have line : (StepLogExtras.writeEntries w true (entry :: next :: rest)).toList =
        entry.1.name.toList ++ '=' :: (text ++ ' ' :: (StepLogExtras.writeEntries w true (next :: rest)).toList) := by
      rw [StepLogExtras.writeEntries,writeEntries_later w (next :: rest) (List.cons_ne_nil _ _)]
      simp [split]
    rw [line,List.length_cons,Nat.add_right_comm,readPairs]
    simp only [key,value,Option.bind_eq_bind,Option.bind_some,later,String.ofList_toList]
    rfl

/-- Each entry has a character of its own. -/
theorem length_writeEntries (first : Bool) (entries : List (LogKey × StepLogEntry)) :
    entries.length ≤ (StepLogExtras.writeEntries w first entries).length := by
  induction entries generalizing first with
  | nil => exact Nat.zero_le _
  | cons entry rest ih =>
    have later := ih false
    have own : 1 ≤ (StepLogExtras.entryText w entry).length := by
      unfold StepLogExtras.entryText
      split <;> simp only [String.length_append]
      · have size : "=\"".length = 2 := by decide
        omega
      · have size : "=null".length = 5 := by decide
        omega
      · have size : "=".length = 1 := by decide
        omega
      · have size : "=".length = 1 := by decide
        omega
    simp only [StepLogExtras.writeEntries,String.length_append,List.length_cons]
    omega

/-- The line has no break, and where its values have visible ends it shows each pair and no other, with CR and
LF as blanks. -/
theorem log_attrs_recovered (extras : StepLogExtras) :
    (∀ c ∈ (extras.display w).toList, c ≠ '\n' ∧ c ≠ '\r') ∧
    ((∀ entry ∈ extras.entries, Delimited entry.2) →
      readAttrs (extras.display w) = some (extras.entries.map fun entry => (entry.1.name,shown w entry.2))) := by
  refine ⟨unbroken_writeEntries w true extras.entries,fun delimited => ?_⟩
  obtain ⟨entries⟩ := extras
  cases entries with
  | nil => rfl
  | cons entry rest =>
    have size := length_writeEntries w true (entry :: rest)
    have read := readPairs_writeEntries w entry rest delimited
      ((StepLogExtras.writeEntries w true (entry :: rest)).length - (entry :: rest).length)
    have nonempty : StepLogExtras.writeEntries w true (entry :: rest) ≠ "" := by
      intro empty
      rw [empty] at size
      exact absurd size (Nat.not_succ_le_zero _)
    rw [Nat.add_sub_cancel' size] at read
    show readAttrs (StepLogExtras.writeEntries w true (entry :: rest)) = _
    rw [readAttrs,if_neg nonempty,read]

/-- The pairs of texts that were pushed. -/
def ofTexts (pairs : List (LogKey × String)) : StepLogExtras :=
  pairs.foldl (fun extras pair => extras.push pair.1 (.string pair.2)) {}

def msgKey : LogKey := ⟨"msg",Text.forall_mem_of_all (by decide)⟩

def statusKey : LogKey := ⟨"status",Text.forall_mem_of_all (by decide)⟩

def zeroWriter : FloatWriter := ⟨fun _ => "0.0",fun _ => Text.forall_mem_of_all (by decide)⟩

theorem log_attrs_recovered_texts :
    readAttrs ((ofTexts [(msgKey,"a b=c"),(statusKey,"d\ne")]).display zeroWriter) =
      some [("msg",.quoted "a b=c"),("status",.quoted "d e")] :=
  (log_attrs_recovered zeroWriter (ofTexts [(msgKey,"a b=c"),(statusKey,"d\ne")])).2 (by
    simp only [ofTexts,StepLogExtras.push,List.foldl_cons,List.foldl_nil,List.nil_append,List.cons_append,
      List.forall_mem_cons,Delimited]
    exact ⟨by decide,by decide,fun _ member => nomatch member⟩)

/-- A double quote in a value ends it on the line, and a line break becomes a blank. -/
theorem log_attrs_forged :
    (ofTexts [(msgKey,"a\" status=\"500")]).display zeroWriter =
      (ofTexts [(msgKey,"a"),(statusKey,"500")]).display zeroWriter ∧
    (ofTexts [(msgKey,"a\nb")]).display zeroWriter = (ofTexts [(msgKey,"a b")]).display zeroWriter ∧
    ¬ ∃ recover : String → List (String × String), ∀ pairs : List (LogKey × String),
      recover ((ofTexts pairs).display zeroWriter) = pairs.map fun pair => (pair.1.name,pair.2) := by
  have forged : (ofTexts [(msgKey,"a\" status=\"500")]).display zeroWriter =
      (ofTexts [(msgKey,"a"),(statusKey,"500")]).display zeroWriter := by decide
  refine ⟨forged,by decide,?_⟩
  rintro ⟨recover,recovers⟩
  have one := recovers [(msgKey,"a\" status=\"500")]
  rw [forged,recovers] at one
  exact absurd (congrArg List.length one) (by decide)

end Recovery

end Logging
end Ruuter
