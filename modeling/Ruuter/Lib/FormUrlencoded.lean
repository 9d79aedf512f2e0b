import Ruuter.Lib.Text

/-! The parser of `application/x-www-form-urlencoded`. What a decoder makes of bytes that are not UTF-8
is a parameter. -/
namespace Form

/-- The UTF-8 of a text. -/
def bytesOf (s : String) : List UInt8 := s.toByteArray.data.toList

def hexValue (b : UInt8) : Option UInt8 :=
  if 0x30 ≤ b ∧ b ≤ 0x39 then some (b - 0x30)
  else if 0x41 ≤ b ∧ b ≤ 0x46 then some (b - 0x37)
  else if 0x61 ≤ b ∧ b ≤ 0x66 then some (b - 0x57)
  else none

def percentDecode : List UInt8 → List UInt8
  | [] => []
  | 0x25 :: high :: low :: rest =>
    match hexValue high,hexValue low with
    | some h,some l => (h * 16 + l) :: percentDecode rest
    | _,_ => 0x25 :: percentDecode (high :: low :: rest)
  | b :: rest => b :: percentDecode rest

def plusToSpace (b : UInt8) : UInt8 := if b = 0x2B then 0x20 else b

/-- A text whose bytes stand as they are or as `%` with two digits. -/
inductive Escaped (plain : Char → Prop) : List Char → List UInt8 → Prop
  | nil : Escaped plain [] []
  | plain : plain c → c.toNat < 128 → Escaped plain text bytes →
      Escaped plain (c :: text) (UInt8.ofNat c.toNat :: bytes)
  | escape : high.toNat < 128 → low.toNat < 128 → hexValue (UInt8.ofNat high.toNat) = some h →
      hexValue (UInt8.ofNat low.toNat) = some l → Escaped plain text bytes →
      Escaped plain ('%' :: high :: low :: text) ((h * 16 + l) :: bytes)

section Bytes

/-- What the loop over the bytes has read, and what is left. -/
theorem toList_loop (array : ByteArray) (left i : Nat) (read : List UInt8) (counted : i + left = array.size) :
    ByteArray.toList.loop array i read = read.reverse ++ array.data.toList.drop i := by
  have size : array.data.toList.length = array.size := Array.length_toList
  induction left generalizing i read with
  | zero =>
    rw [ByteArray.toList.loop,if_neg (by omega),List.drop_eq_nil_of_le (by omega),List.append_nil]
  | succ left ih =>
    have inside : i < array.size := by omega
    have byte : array.get! i = array.data.toList[i] := by
      rw [Array.getElem_toList]
      exact getElem!_pos array.data i inside
    have next : array.data.toList.drop i = array.data.toList[i] :: array.data.toList.drop (i + 1) :=
      List.drop_eq_getElem_cons (by omega)
    rw [ByteArray.toList.loop,if_pos inside,ih (i + 1) _ (by omega),next,byte,List.reverse_cons,List.append_assoc,
      List.singleton_append]

theorem toList_eq (array : ByteArray) : array.toList = array.data.toList :=
  toList_loop array array.size 0 [] (Nat.zero_add _)

theorem bytesOf_ofList (text : List Char) : bytesOf (String.ofList text) = text.flatMap String.utf8EncodeChar := by
  rw [bytesOf,String.toByteArray_ofList,List.utf8Encode,List.toList_data_toByteArray]

theorem bytesOf_injective : Function.Injective bytesOf := by
  intro s t same
  apply String.toByteArray_inj.mp
  apply ByteArray.ext
  exact Array.toList_inj.mp same

theorem utf8EncodeChar_ascii (ascii : c.toNat < 128) : String.utf8EncodeChar c = [UInt8.ofNat c.toNat] := by
  have small : c.val.toNat ≤ 0x7F := Nat.le_of_lt_succ ascii
  unfold String.utf8EncodeChar
  rw [if_pos small]
  rfl

end Bytes

section Text
variable (malformed : List UInt8 → String)

def utf8Text (bytes : List UInt8) : String := (String.fromUTF8? ⟨bytes.toArray⟩).getD (malformed bytes)

def decodeText (s : String) : String := utf8Text malformed (percentDecode ((bytesOf s).map plusToSpace))

/-- The name and the value around the first `=`. -/
def pairOf (piece : String) : String × String :=
  let (name,value) := piece.toList.span (· ≠ '=')
  (decodeText malformed (String.ofList name),decodeText malformed (String.ofList value.tail))

def parse (query : String) : List (String × String) :=
  ((Text.split query '&').filter (· ≠ "")).map (pairOf malformed)

theorem utf8Text_bytesOf (s : String) : utf8Text malformed (bytesOf s) = s := by
  unfold utf8Text bytesOf
  rw [Array.toArray_toList]
  have valid : (⟨s.toByteArray.data⟩ : ByteArray).IsValidUTF8 := s.isValidUTF8
  unfold String.fromUTF8?
  rw [dif_pos valid]
  rfl

theorem percentDecode_plain (other : b ≠ 0x25) (rest : List UInt8) :
    percentDecode (b :: rest) = b :: percentDecode rest := by
  rw [percentDecode.eq_def]
  split
  · rename_i same
    cases same
  · rename_i same
    exact absurd (List.cons.inj same).1 other
  · rename_i same
    rw [(List.cons.inj same).1,(List.cons.inj same).2]

/-- The digits of an escape are no `+`. -/
theorem plusToSpace_hex (digit : hexValue b = some n) : plusToSpace b = b := by
  refine if_neg ?_
  rintro rfl
  cases digit

/-- Each byte is read back from what stands for it. -/
theorem percentDecode_escaped {plain : Char → Prop} (free : ∀ c, plain c → c ≠ '%' ∧ c ≠ '+')
    (escaped : Escaped plain text bytes) :
    percentDecode ((bytesOf (String.ofList text)).map plusToSpace) = bytes := by
  rw [bytesOf_ofList]
  induction escaped with
  | nil => rfl
  | @plain c text bytes chosen ascii _ ih =>
    obtain ⟨percent,plus⟩ := free c chosen
    have code : ∀ d : Char, d.toNat < 128 → c ≠ d → UInt8.ofNat c.toNat ≠ UInt8.ofNat d.toNat := by
      intro d small other same
      have same := congrArg UInt8.toNat same
      simp only [UInt8.toNat_ofNat'] at same
      refine other (Char.toNat_inj.mp ?_)
      omega
    have kept : plusToSpace (UInt8.ofNat c.toNat) = UInt8.ofNat c.toNat := if_neg (code '+' (by decide) plus)
    rw [List.flatMap_cons,utf8EncodeChar_ascii ascii,List.singleton_append,List.map_cons,kept,
      percentDecode_plain (code '%' (by decide) percent),ih]
  | @escape high low h l text bytes first second upper lower _ ih =>
    have percent : plusToSpace (UInt8.ofNat '%'.toNat) = 0x25 := by decide
    rw [List.flatMap_cons,List.flatMap_cons,List.flatMap_cons,utf8EncodeChar_ascii first,utf8EncodeChar_ascii second,
      utf8EncodeChar_ascii (c := '%') (by decide),List.singleton_append,List.singleton_append,List.singleton_append,
      List.map_cons,List.map_cons,List.map_cons,percent,plusToSpace_hex upper,plusToSpace_hex lower,percentDecode,
      upper,lower,ih]

theorem decodeText_escaped {plain : Char → Prop} (free : ∀ c, plain c → c ≠ '%' ∧ c ≠ '+')
    (escaped : Escaped plain text (bytesOf s)) : decodeText malformed (String.ofList text) = s := by
  rw [decodeText,percentDecode_escaped free escaped,utf8Text_bytesOf]

theorem pairOf_append (clean : '=' ∉ name.toList) (value : String) :
    pairOf malformed (name ++ "=" ++ value) = (decodeText malformed name,decodeText malformed value) := by
  have parts : (name ++ "=" ++ value).toList.span (· ≠ '=') = (name.toList,'=' :: value.toList) := by
    rw [List.span_eq_takeWhile_dropWhile,String.toList_append,String.toList_append,List.append_assoc,
      List.takeWhile_append_of_pos,List.dropWhile_append_of_pos]
    · simp
    · exact fun c member => decide_eq_true fun same => clean (same ▸ member)
    · exact fun c member => decide_eq_true fun same => clean (same ▸ member)
  simp only [pairOf,parts,List.tail_cons,String.ofList_toList]

/-- The pairs of a query that goes on behind an `&`. -/
theorem parse_append (first second : String) :
    parse malformed (first ++ "&" ++ second) = parse malformed first ++ parse malformed second := by
  have cut := Text.split_append first second '&'
  rw [show String.singleton '&' = "&" from rfl] at cut
  rw [parse,cut,List.filter_append,List.map_append]
  rfl

theorem parse_single (clean : '&' ∉ piece.toList) (nonempty : piece ≠ "") :
    parse malformed piece = [pairOf malformed piece] := by
  rw [parse,Text.split_of_not_mem clean,List.filter_cons_of_pos (by simpa using nonempty)]
  rfl

theorem parse_intercalate (pieces : List String) :
    parse malformed ("&".intercalate pieces) = pieces.flatMap (parse malformed) := by
  induction pieces with
  | nil => rfl
  | cons piece rest ih =>
    by_cases last : rest = []
    · subst last
      simp
    · rw [String.intercalate_cons_of_ne_nil last,parse_append,ih,List.flatMap_cons]

end Text

end Form
