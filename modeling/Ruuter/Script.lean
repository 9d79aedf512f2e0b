import Ruuter.Json
import Ruuter.Lib.Text

/-! Finding scripts in text (`src/scripting/mod.rs`): `${...}` segments and whole-string
`$=...=` lines. All delimiters are ASCII, so scanning characters and scanning bytes agree;
offsets count bytes. -/
namespace Ruuter

/-- A `${...}` segment: its byte range and the script between the braces. -/
structure Segment where
  start : Nat
  stop : Nat
  inner : String
deriving DecidableEq

/-- The inner loop of `find_script_segments`, from behind the opening `${`: the script up to
the brace that closes it and the text behind that brace. Braces inside quotes do not count. -/
def scanScript : (text : List Char) → (depth : Nat) → (inStr : Option Char) → (escape : Bool) →
    (inner : List Char) → Option (List Char × List Char)
  | [], _, _, _, _ => none
  | c :: rest, depth, some quote, escape, inner =>
    if escape then scanScript rest depth (some quote) false (c :: inner)
    else if c = '\x5c' then scanScript rest depth (some quote) true (c :: inner)
    else if c = quote then scanScript rest depth none false (c :: inner)
    else scanScript rest depth (some quote) false (c :: inner)
  | c :: rest, depth, none, escape, inner =>
    if c = '\x22' ∨ c = '\x27' ∨ c = '\x60' then scanScript rest depth (some c) escape (c :: inner)
    else if c = '\x7b' then scanScript rest (depth + 1) none escape (c :: inner)
    else if c = '\x7d' then
      if depth = 1 then some (inner.reverse,rest)
      else scanScript rest (depth - 1) none escape (c :: inner)
    else scanScript rest depth none escape (c :: inner)

/-- The outer loop, from a byte offset on. Every round drops a character, so the length of
the text is fuel enough. -/
def segmentsFrom : (fuel offset : Nat) → List Char → List Segment
  | 0, _, _ => []
  | fuel + 1, offset, '$' :: '\x7b' :: rest =>
    match scanScript rest 1 none false [] with
    | some (inner,behind) =>
      let stop := offset + 3 + (String.ofList inner).utf8ByteSize
      { start := offset, stop, inner := String.ofList inner } :: segmentsFrom fuel stop behind
    | none => segmentsFrom fuel (offset + 1) ('\x7b' :: rest)
  | fuel + 1, offset, c :: rest => segmentsFrom fuel (offset + c.utf8Size) rest
  | _ + 1, _, [] => []

def findScriptSegments (s : String) : List Segment := segmentsFrom s.toList.length 0 s.toList

/-- The body of a string that `LINE_PATTERN` matches as a whole. -/
def lineBody (s : String) : Option String :=
  match s.toList with
  | '$' :: '=' :: rest =>
    match rest.reverse with
    | '=' :: reversed =>
      if reversed ≠ [] ∧ '\n' ∉ reversed then some (String.ofList reversed.reverse) else none
    | _ => none
  | _ => none

/-- Every script the evaluation of a string can run. -/
def scriptSources (s : String) : List String :=
  (findScriptSegments s).map (·.inner) ++ (lineBody s).toList

def stringHasExpressions (s : String) : Bool :=
  Text.contains s "$\x7b" || (lineBody s).isSome

mutual

def hasExpressions : Json → Bool
  | .string s => stringHasExpressions s
  | .array items => hasExpressionsList items
  | .object members => hasExpressionsMembers members
  | .null | .bool _ | .number _ => false

def hasExpressionsList : List Json → Bool
  | [] => false
  | item :: rest => hasExpressions item || hasExpressionsList rest

def hasExpressionsMembers : List (String × Json) → Bool
  | [] => false
  | (_,value) :: rest => hasExpressions value || hasExpressionsMembers rest

end

/-- The string is one expression from end to end, so that it evaluates to the value of the
script and not to text. -/
def wholeExpression (s : String) : Option String :=
  match findScriptSegments s with
  | [segment] =>
    if segment.start = 0 ∧ segment.stop = s.utf8ByteSize then some segment.inner else lineBody s
  | _ => lineBody s

theorem wholeExpression_mem (whole : wholeExpression s = some source) : source ∈ scriptSources s := by
  have line : ∀ source, lineBody s = some source → source ∈ scriptSources s := by
    intro source eq
    simp [scriptSources,eq]
  unfold wholeExpression at whole
  split at whole
  · rename_i segment eq
    split at whole
    · cases whole
      simp [scriptSources,eq]
    · exact line source whole
  · exact line source whole

theorem segment_mem {segment : Segment} (member : segment ∈ findScriptSegments s) : segment.inner ∈ scriptSources s :=
  List.mem_append_left _ (List.mem_map_of_mem member)

example : findScriptSegments "a $\x7bf(\x7bx: '\x7d'\x7d)\x7d b" =
    [{ start := 2, stop := 16, inner := "f(\x7bx: '\x7d'\x7d)" }] := by decide

end Ruuter
