import Mathlib.Tactic.SplitIfs
import Ruuter.Lib.Utf16

/-! The double-quoted string literals of ECMAScript, as scripts outside strict mode have them. Since the
2019 edition line and paragraph separators may stand in a literal as they are. The value of a literal is
a sequence of UTF-16 code units. -/
namespace Ecma

def hexDigit (c : Char) : Option Nat :=
  if c.isDigit then some (c.toNat - '0'.toNat)
  else if 'a' ≤ c ∧ c ≤ 'f' then some (c.toNat - 'a'.toNat + 10)
  else if 'A' ≤ c ∧ c ≤ 'F' then some (c.toNat - 'A'.toNat + 10)
  else none

/-- UTF16EncodeCodePoint. A code point may be a surrogate. -/
def codePointUnits (n : Nat) : List UInt16 :=
  if n < 0x10000 then [UInt16.ofNat n]
  else [UInt16.ofNat (0xD800 + (n - 0x10000) / 0x400),UInt16.ofNat (0xDC00 + (n - 0x10000) % 0x400)]

/-- The digits of a code point up to its brace. -/
def bracedCode (n : Nat) : List Char → Option (Nat × List Char)
  | [] => none
  | c :: rest =>
    if c = '}' then some (n,rest)
    else do
      let code := n * 0x10 + (← hexDigit c)
      if code ≤ 0x10FFFF then bracedCode code rest else none

/-- At most so many further octal digits. -/
def octalDigits : Nat → Nat → List Char → Nat × List Char
  | 0, n, rest => (n,rest)
  | _ + 1, n, [] => (n,[])
  | more + 1, n, c :: rest =>
    if '0' ≤ c ∧ c ≤ '7' then octalDigits more (n * 8 + (c.toNat - '0'.toNat)) rest else (n,c :: rest)

/-- SingleEscapeCharacter and NonEscapeCharacter. -/
def singleEscape (c : Char) : Char :=
  match c with
  | 'b' => '\x08'
  | 't' => '\t'
  | 'n' => '\n'
  | 'v' => '\x0b'
  | 'f' => '\x0c'
  | 'r' => '\r'
  | c => c

/-- EscapeSequence and LineContinuation: the text behind a backslash. -/
def escapeSequence : List Char → Option (List UInt16 × List Char)
  | [] => none
  | 'u' :: '{' :: c :: rest => do
    let (code,later) ← bracedCode (← hexDigit c) rest
    return (codePointUnits code,later)
  | 'u' :: a :: b :: c :: d :: rest => do
    let code := (← hexDigit a) * 0x1000 + (← hexDigit b) * 0x100 + (← hexDigit c) * 0x10 + (← hexDigit d)
    return ([UInt16.ofNat code],rest)
  | 'x' :: a :: b :: rest => do
    return ([UInt16.ofNat ((← hexDigit a) * 0x10 + (← hexDigit b))],rest)
  | '\r' :: '\n' :: rest => some ([],rest)
  | c :: rest =>
    if c ∈ ['\n','\r','\u2028','\u2029'] then some ([],rest)
    else if c ∈ ['u','x'] then none
    else if '0' ≤ c ∧ c ≤ '7' then
      let (code,later) := octalDigits (if c ≤ '3' then 2 else 1) (c.toNat - '0'.toNat) rest
      some ([UInt16.ofNat code],later)
    else some (Utf16.encodeChar (singleEscape c),rest)

theorem escapeSequence_hex (digit : a ≠ '{') (rest : List Char) :
    escapeSequence ('u' :: a :: b :: c :: d :: rest) = (do
      let code := (← hexDigit a) * 0x1000 + (← hexDigit b) * 0x100 + (← hexDigit c) * 0x10 + (← hexDigit d)
      return ([UInt16.ofNat code],rest)) := by
  rw [escapeSequence]
  exact digit

/-- DoubleStringCharacters with the quote behind them: a text, its value and what follows the quote. -/
inductive Characters : List Char → List UInt16 → List Char → Prop
  | close : Characters ('"' :: rest) [] rest
  | plain : c ∉ ['"','\\','\n','\r'] → Characters text units rest →
      Characters (c :: text) (Utf16.encodeChar c ++ units) rest
  | escape : escapeSequence text = some (unit,later) → Characters later units rest →
      Characters ('\\' :: text) (unit ++ units) rest

/-- The source begins with a string literal of this value in front of the rest. -/
def Literal (source : List Char) (units : List UInt16) (rest : List Char) : Prop :=
  ∃ text, source = '"' :: text ∧ Characters text units rest

/-- Quotes and backslashes say which production applies, so a text is read in one way. -/
theorem Characters.unique (first : Characters text units rest) :
    Characters text units' rest' → units' = units ∧ rest' = rest := by
  induction first generalizing units' rest' with
  | close =>
    intro second
    cases second with
    | close => exact ⟨rfl,rfl⟩
    | plain other => exact absurd (by simp) other
  | @plain c text units rest other _ ih =>
    intro second
    cases second with
    | close => exact absurd (by simp) other
    | plain _ later =>
      obtain ⟨rfl,rfl⟩ := ih later
      exact ⟨rfl,rfl⟩
    | escape => exact absurd (by simp) other
  | @escape text unit later units rest read _ ih =>
    intro second
    cases second with
    | plain other => exact absurd (by simp) other
    | escape read' characters =>
      rw [read,Option.some.injEq,Prod.mk.injEq] at read'
      obtain ⟨rfl,rfl⟩ := read'
      obtain ⟨rfl,rfl⟩ := ih characters
      exact ⟨rfl,rfl⟩

section Reader

theorem bracedCode_shorter {text : List Char} (read : bracedCode n text = some (code,later)) :
    later.length < text.length := by
  induction text generalizing n with
  | nil => cases read
  | cons c rest ih =>
    unfold bracedCode at read
    split at read
    · cases read
      exact Nat.lt_succ_self _
    · obtain ⟨digit,_,read⟩ := Option.bind_eq_some_iff.mp read
      dsimp only at read
      split at read
      · exact Nat.lt_succ_of_lt (ih read)
      · cases read

theorem octalDigits_shorter (more n : Nat) (text : List Char) :
    (octalDigits more n text).2.length ≤ text.length := by
  induction more generalizing n text with
  | zero => exact Nat.le_refl _
  | succ more ih =>
    cases text with
    | nil => exact Nat.le_refl _
    | cons c rest =>
      unfold octalDigits
      split
      · exact Nat.le_succ_of_le (ih _ rest)
      · exact Nat.le_refl _

/-- An escape takes at least one character. -/
theorem escapeSequence_shorter {text : List Char} (read : escapeSequence text = some (units,later)) :
    later.length < text.length := by
  unfold escapeSequence at read
  split at read
  · cases read
  · obtain ⟨first,_,read⟩ := Option.bind_eq_some_iff.mp read
    obtain ⟨⟨code,rest⟩,braced,read⟩ := Option.bind_eq_some_iff.mp read
    cases read
    have := bracedCode_shorter braced
    simp only [List.length_cons]
    omega
  · obtain ⟨a,_,read⟩ := Option.bind_eq_some_iff.mp read
    obtain ⟨b,_,read⟩ := Option.bind_eq_some_iff.mp read
    obtain ⟨c,_,read⟩ := Option.bind_eq_some_iff.mp read
    obtain ⟨d,_,read⟩ := Option.bind_eq_some_iff.mp read
    cases read
    simp only [List.length_cons]
    omega
  · obtain ⟨a,_,read⟩ := Option.bind_eq_some_iff.mp read
    obtain ⟨b,_,read⟩ := Option.bind_eq_some_iff.mp read
    cases read
    simp only [List.length_cons]
    omega
  · cases read
    simp only [List.length_cons]
    omega
  · split at read
    · cases read
      exact Nat.lt_succ_self _
    · split at read
      · cases read
      · split at read
        · cases read
          exact Nat.lt_succ_of_le (octalDigits_shorter _ _ _)
        · cases read
          exact Nat.lt_succ_self _

/-- The reading of `Characters`, with fuel for its steps. -/
def readCharacters : Nat → List Char → Option (List UInt16 × List Char)
  | fuel + 1, c :: text =>
    if c = '"' then some ([],text)
    else if c = '\\' then do
      let (unit,later) ← escapeSequence text
      let (units,rest) ← readCharacters fuel later
      return (unit ++ units,rest)
    else if c ∈ ['\n','\r'] then none
    else do
      let (units,rest) ← readCharacters fuel text
      return (Utf16.encodeChar c ++ units,rest)
  | _, _ => none

theorem characters_of_read (read : readCharacters fuel text = some (units,rest)) : Characters text units rest := by
  induction fuel generalizing text units with
  | zero => cases read
  | succ fuel ih =>
    cases text with
    | nil => cases read
    | cons c text =>
      unfold readCharacters at read
      split_ifs at read with quote backslash newline
      · cases read
        subst quote
        exact .close
      · obtain ⟨⟨unit,later⟩,escaped,read⟩ := Option.bind_eq_some_iff.mp read
        obtain ⟨⟨inner,behind⟩,characters,read⟩ := Option.bind_eq_some_iff.mp read
        cases read
        subst backslash
        exact .escape escaped (ih characters)
      · obtain ⟨⟨inner,behind⟩,characters,read⟩ := Option.bind_eq_some_iff.mp read
        cases read
        refine .plain ?_ (ih characters)
        simpa [quote,backslash] using newline

/-- Every step takes at least one character, so the length of the text is fuel enough. -/
theorem Characters.read (characters : Characters text units rest) (enough : text.length ≤ fuel) :
    readCharacters fuel text = some (units,rest) := by
  induction characters generalizing fuel with
  | close =>
    cases fuel with
    | zero => cases enough
    | succ fuel => rfl
  | @plain c text units rest other _ ih =>
    cases fuel with
    | zero => cases enough
    | succ fuel =>
      simp only [List.mem_cons,not_or] at other
      obtain ⟨quote,backslash,newline,carriage,-⟩ := other
      rw [readCharacters,if_neg quote,if_neg backslash,if_neg (by simp [newline,carriage]),
        ih (Nat.le_of_succ_le_succ enough)]
      rfl
  | @escape text unit later units rest escaped _ ih =>
    cases fuel with
    | zero => cases enough
    | succ fuel =>
      have shorter := escapeSequence_shorter escaped
      have left : later.length ≤ fuel := by
        simp only [List.length_cons] at enough
        omega
      rw [readCharacters,if_neg (by decide),if_pos rfl,escaped]
      simp only [Option.bind_eq_bind,Option.bind_some,ih left]
      rfl

/-- The value of a source that is a string literal and nothing else. -/
def literalValue : List Char → Option (List UInt16)
  | '"' :: text => do
    let (units,rest) ← readCharacters text.length text
    if rest = [] then some units else none
  | _ => none

theorem literalValue_iff : literalValue source = some units ↔ Literal source units [] := by
  constructor
  · intro value
    unfold literalValue at value
    split at value
    · rename_i text
      obtain ⟨⟨inner,rest⟩,read,value⟩ := Option.bind_eq_some_iff.mp value
      dsimp only at value
      split at value
      · rename_i empty
        cases value
        subst empty
        exact ⟨text,rfl,characters_of_read read⟩
      · cases value
    · cases value
  · rintro ⟨text,rfl,characters⟩
    rw [literalValue,characters.read (Nat.le_refl _)]
    rfl

end Reader

theorem Literal.unique (first : Literal source units rest) (second : Literal source units' rest') :
    units' = units ∧ rest' = rest := by
  obtain ⟨text,rfl,characters⟩ := first
  obtain ⟨text',same,characters'⟩ := second
  cases same
  exact characters.unique characters'

/-- A source made of fixed texts with one string literal between each two of them. -/
def Reads : List String → List (List UInt16) → List Char → Prop
  | [last], values, source => values = [] ∧ source = last.toList
  | fixed :: more, values, source => ∃ value later text rest, values = value :: later ∧
      source = fixed.toList ++ text ∧ Literal text value rest ∧ Reads more later rest
  | [], _, _ => False

/-- Behind its first text a source has one literal. -/
theorem reads_cons {fixed next : String} {more : List String} {text rest : List Char}
    (literal : Literal text value rest) :
    Reads (fixed :: next :: more) values (fixed.toList ++ text) ↔
      ∃ later, values = value :: later ∧ Reads (next :: more) later rest := by
  constructor
  · intro read
    rw [Reads] at read
    obtain ⟨value',later,text',rest',rfl,split,found,reads⟩ := read
    · rw [List.append_cancel_left split] at literal
      obtain ⟨rfl,rfl⟩ := literal.unique found
      exact ⟨later,rfl,reads⟩
    · exact List.cons_ne_nil _ _
  · rintro ⟨later,rfl,reads⟩
    rw [Reads]
    · exact ⟨value,later,text,rest,rfl,rfl,literal,reads⟩
    · exact List.cons_ne_nil _ _

end Ecma
