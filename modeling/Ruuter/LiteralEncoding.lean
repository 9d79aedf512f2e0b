import Ruuter.ScriptBindings

/-! The string literals in the sources that `setup_bindings` and the declaration of an unknown identifier
hand to the script engines (`js_string_literal` of `src/scripting/boa.rs` and
`src/scripting/quickjs.rs`). -/
namespace Ruuter
namespace Scripting

/-- `{:04x}` -/
def paddedHex (n : Nat) : String :=
  String.ofList (List.replicate (4 - (Nat.toDigits 16 n).length) '0' ++ Nat.toDigits 16 n)

namespace Boa

def pushEscaped (out : String) (c : Char) : String :=
  match c with
  | '\\' => out ++ "\\\\"
  | '"' => out ++ "\\\""
  | '\n' => out ++ "\\n"
  | '\r' => out ++ "\\r"
  | '\t' => out ++ "\\t"
  | c => if c.toNat < 0x20 then out ++ ("\\u" ++ paddedHex c.toNat) else out.push c

def jsStringLiteral (s : String) : String := (s.toList.foldl pushEscaped "\"").push '"'

/-- The source that binds a variable. -/
def bindSource (key valueJson : String) : String :=
  "globalThis[" ++ jsStringLiteral key ++ ("] = " ++ valueJson ++ ";")

/-- The source that declares an identifier before the next try. -/
def declareSource (ident : String) : String := "globalThis[" ++ jsStringLiteral ident ++ "] = undefined;"

end Boa

namespace QuickJs

def pushEscaped (out : String) (c : Char) : String :=
  match c with
  | '\\' => out ++ "\\\\"
  | '"' => out ++ "\\\""
  | '\n' => out ++ "\\n"
  | '\r' => out ++ "\\r"
  | '\t' => out ++ "\\t"
  | c => if c.toNat < 0x20 then out ++ ("\\u" ++ paddedHex c.toNat) else out.push c

def jsStringLiteral (s : String) : String := (s.toList.foldl pushEscaped "\"").push '"'

def incomingSource (incomingJson : String) : String :=
  "globalThis.incoming = JSON.parse(" ++ jsStringLiteral incomingJson ++ ");"

def bindSource (key valueJson : String) : String :=
  "globalThis[" ++ jsStringLiteral key ++ ("] = JSON.parse(" ++ jsStringLiteral valueJson ++ ");")

def declareSource (ident : String) : String := "globalThis[" ++ jsStringLiteral ident ++ "] = undefined;"

end QuickJs

section Copies

/-- What both copies append for a character. -/
theorem pushEscaped_toList (out : String) (c : Char) :
    (Boa.pushEscaped out c).toList = out.toList ++ escapeChar c := by
  have padded : ∀ n < 0x20, (paddedHex n).toList = ['0','0',Nat.digitChar (n / 16),Nat.digitChar (n % 16)] := by
    decide
  unfold Boa.pushEscaped
  split
  iterate 5 rw [String.toList_append]; rfl
  · rename_i backslash quote newline carriage tab
    rw [escapeChar,if_neg backslash,if_neg quote,if_neg newline,if_neg carriage,if_neg tab]
    split
    · rename_i control
      rw [String.toList_append,String.toList_append,padded c.toNat control]
      rfl
    · rw [String.toList_push]

theorem foldl_pushEscaped (text : List Char) (out : String) :
    (text.foldl Boa.pushEscaped out).toList = out.toList ++ text.flatMap escapeChar := by
  induction text generalizing out with
  | nil => rw [List.foldl_nil,List.flatMap_nil,List.append_nil]
  | cons c rest ih => rw [List.foldl_cons,ih,pushEscaped_toList,List.flatMap_cons,List.append_assoc]

theorem boa_jsStringLiteral (s : String) : Boa.jsStringLiteral s = jsStringLiteral s := by
  apply String.toList_injective
  rw [Boa.jsStringLiteral,String.toList_push,foldl_pushEscaped]
  exact String.toList_ofList.symm

theorem quickjs_jsStringLiteral (s : String) : QuickJs.jsStringLiteral s = Boa.jsStringLiteral s := rfl

end Copies

section Grammar
open Ecma

theorem literal_jsStringLiteral (s : String) (rest : List Char) :
    Literal ((Boa.jsStringLiteral s).toList ++ rest) (Utf16.encode s) rest := by
  rw [boa_jsStringLiteral]
  exact jsStringLiteral_reads s rest

/-- A source with one literal between two texts has the value of that literal and no other reading. -/
theorem reads_one (before s behind : String) (values : List (List UInt16)) :
    Reads [before,behind] values (before ++ Boa.jsStringLiteral s ++ behind).toList ↔ values = [Utf16.encode s] := by
  rw [String.toList_append,String.toList_append,List.append_assoc,reads_cons (literal_jsStringLiteral s behind.toList)]
  constructor
  · rintro ⟨later,rfl,none,_⟩
    rw [none]
  · rintro rfl
    exact ⟨[],rfl,rfl,rfl⟩

theorem reads_two (before s between t behind : String) (values : List (List UInt16)) :
    Reads [before,between,behind] values
      (before ++ Boa.jsStringLiteral s ++ (between ++ Boa.jsStringLiteral t ++ behind)).toList ↔
      values = [Utf16.encode s,Utf16.encode t] := by
  rw [String.toList_append,String.toList_append,List.append_assoc,reads_cons (literal_jsStringLiteral s _)]
  constructor
  · rintro ⟨later,rfl,reads⟩
    rw [(reads_one between t behind later).mp reads]
  · rintro rfl
    exact ⟨_,rfl,(reads_one between t behind _).mpr rfl⟩

/-- Both copies make one string literal with the value of the string, which ends where the copy ends it,
and every source made with it has the names and the JSON texts as the values of its literals. -/
theorem js_string_literal_safe (s : String) :
    (∀ rest units later, Literal ((Boa.jsStringLiteral s).toList ++ rest) units later ↔
      units = Utf16.encode s ∧ later = rest) ∧
    QuickJs.jsStringLiteral s = Boa.jsStringLiteral s ∧
    (∀ values, Reads ["globalThis.incoming = JSON.parse(",");"] values (QuickJs.incomingSource s).toList ↔
      values = [Utf16.encode s]) ∧
    (∀ json values, Reads ["globalThis[","] = " ++ json ++ ";"] values (Boa.bindSource s json).toList ↔
      values = [Utf16.encode s]) ∧
    (∀ json values, Reads ["globalThis[","] = JSON.parse(",");"] values (QuickJs.bindSource s json).toList ↔
      values = [Utf16.encode s,Utf16.encode json]) ∧
    ∀ values, (Reads ["globalThis[","] = undefined;"] values (Boa.declareSource s).toList ↔ values = [Utf16.encode s]) ∧
      (Reads ["globalThis[","] = undefined;"] values (QuickJs.declareSource s).toList ↔ values = [Utf16.encode s]) := by
  refine ⟨fun rest units later => ⟨fun found => ?_,?_⟩,quickjs_jsStringLiteral s,fun values => ?_,fun json values => ?_,
    fun json values => ?_,fun values => ⟨?_,?_⟩⟩
  · exact (literal_jsStringLiteral s rest).unique found
  · rintro ⟨rfl,rfl⟩
    exact literal_jsStringLiteral s later
  · exact reads_one _ s _ values
  · exact reads_one _ s _ values
  · exact reads_two _ s _ json _ values
  · exact reads_one _ s _ values
  · exact reads_one _ s _ values

end Grammar

end Scripting
end Ruuter
