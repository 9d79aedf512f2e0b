import Ruuter.Lib.FormUrlencoded

/-! Byte offsets into UTF-8 text: character boundaries, and slices between them as a checked
operation. Offsets of prefixes are boundaries, and slices between them are what stands there. -/
namespace Utf8
open Form (bytesOf)

def encode (text : List Char) : List UInt8 := text.flatMap String.utf8EncodeChar

/-- The number of bytes. -/
def size (text : List Char) : Nat := (encode text).length

/-- Not a byte inside a character. -/
def isStart (b : UInt8) : Bool := b < 0x80 || 0xC0 ≤ b

def isCharBoundary (s : String) (i : Nat) : Bool :=
  match (bytesOf s)[i]? with
  | some b => isStart b
  | none => i == (bytesOf s).length

/-- The text between two offsets, if both are boundaries and in order. -/
def slice (s : String) (start stop : Nat) : Option String :=
  if start ≤ stop ∧ isCharBoundary s start ∧ isCharBoundary s stop then
    String.fromUTF8? ⟨(((bytesOf s).take stop).drop start).toArray⟩
  else none

section Sizes
variable {c : Char} {text before after : List Char}

@[simp] theorem size_nil : size [] = 0 := rfl

@[simp] theorem encode_cons : encode (c :: text) = String.utf8EncodeChar c ++ encode text := List.flatMap_cons

@[simp] theorem encode_append : encode (before ++ after) = encode before ++ encode after := List.flatMap_append

@[simp] theorem size_cons : size (c :: text) = c.utf8Size + size text := by
  rw [size,encode_cons,List.length_append,String.length_utf8EncodeChar]
  rfl

@[simp] theorem size_append : size (before ++ after) = size before + size after := by
  rw [size,encode_append,List.length_append]
  rfl

theorem size_snoc (before : List Char) (c : Char) : size (before ++ [c]) = size before + c.utf8Size := by
  rw [size_append,size_cons,size_nil,Nat.add_zero]

theorem bytesOf_eq (s : String) : bytesOf s = encode s.toList := by
  have same := Form.bytesOf_ofList s.toList
  rwa [String.ofList_toList] at same

theorem length_bytesOf (s : String) : (bytesOf s).length = size s.toList := by
  rw [bytesOf_eq]
  rfl

theorem utf8ByteSize_eq (s : String) : s.utf8ByteSize = size s.toList := by
  rw [← length_bytesOf]
  rfl

theorem utf8ByteSize_ofList (text : List Char) : (String.ofList text).utf8ByteSize = size text := by
  rw [utf8ByteSize_eq,String.toList_ofList]

end Sizes

section Bytes
variable {c d : Char}

def byte (c : Char) : UInt8 := UInt8.ofNat c.toNat

theorem byte_toNat (ascii : c.toNat < 128) : (byte c).toNat = c.toNat := by
  rw [byte,UInt8.toNat_ofNat']
  omega

theorem byte_inj (left : c.toNat < 128) (right : d.toNat < 128) : byte c = byte d ↔ c = d := by
  rw [← UInt8.toNat_inj,byte_toNat left,byte_toNat right]
  exact Char.toNat_inj

theorem encode_ascii (ascii : c.toNat < 128) : String.utf8EncodeChar c = [byte c] := Form.utf8EncodeChar_ascii ascii

/-- No byte of a character that is not ASCII is ASCII. -/
theorem encode_high (high : 128 ≤ c.toNat) (member : b ∈ String.utf8EncodeChar c) : 128 ≤ b.toNat := by
  have big : ¬ c.val.toNat ≤ 0x7f := Nat.not_le.mpr high
  unfold String.utf8EncodeChar at member
  simp only [big,if_false] at member
  split at member
  · simp only [List.mem_cons,List.not_mem_nil,or_false] at member
    rcases member with rfl | rfl
    all_goals rw [UInt8.toNat_ofNat']; omega
  · split at member
    · simp only [List.mem_cons,List.not_mem_nil,or_false] at member
      rcases member with rfl | rfl | rfl
      all_goals rw [UInt8.toNat_ofNat']; omega
    · simp only [List.mem_cons,List.not_mem_nil,or_false] at member
      rcases member with rfl | rfl | rfl | rfl
      all_goals rw [UInt8.toNat_ofNat']; omega

theorem isStart_byte : ∀ n < 256, (UInt8.ofNat n).IsUTF8FirstByte → isStart (UInt8.ofNat n) = true := by
  decide +kernel

theorem isStart_head (first : (String.utf8EncodeChar c)[0]? = some b) : isStart b = true := by
  obtain ⟨_,rfl⟩ := List.getElem?_eq_some_iff.mp first
  have byte := isStart_byte (String.utf8EncodeChar c)[0].toNat (UInt8.toNat_lt _)
  rw [UInt8.ofNat_toNat] at byte
  exact byte UInt8.isUTF8FirstByte_getElem_zero_utf8EncodeChar

theorem exists_head (c : Char) : ∃ b rest, String.utf8EncodeChar c = b :: rest :=
  List.exists_cons_of_ne_nil String.utf8EncodeChar_ne_nil

/-- An ASCII byte at the front is the first character. -/
theorem encode_head (first : (encode (c :: text))[0]? = some b) (low : b.toNat < 128) :
    c.toNat < 128 ∧ b = byte c := by
  obtain ⟨head,later,bytes⟩ := exists_head c
  rw [encode_cons,bytes] at first
  obtain rfl : head = b := Option.some.inj first
  have ascii : c.toNat < 128 := by
    by_contra other
    have high := encode_high (Nat.not_lt.mp other) (bytes ▸ List.mem_cons_self ..)
    omega
  rw [encode_ascii ascii] at bytes
  exact ⟨ascii,(List.cons.inj bytes).1.symm⟩

end Bytes

section Slices
variable {s : String} {before middle after : List Char}

theorem isCharBoundary_size (split : s.toList = before ++ after) : isCharBoundary s (size before) = true := by
  unfold isCharBoundary
  have bytes : bytesOf s = encode before ++ encode after := by rw [bytesOf_eq,split,encode_append]
  have behind : (bytesOf s)[size before]? = (encode after)[0]? := by
    rw [bytes,List.getElem?_append_right (show (encode before).length ≤ size before from Nat.le_refl _)]
    exact congrArg ((encode after)[·]?) (Nat.sub_self _)
  rw [behind]
  cases after with
  | nil =>
    rw [bytes]
    exact beq_iff_eq.mpr (by simp [encode,size])
  | cons c rest =>
    obtain ⟨b,later,first⟩ := exists_head c
    rw [encode_cons,first]
    exact isStart_head (c := c) (by rw [first]; rfl)

/-- A slice between the ends of two prefixes. -/
theorem slice_eq (split : s.toList = before ++ (middle ++ after)) :
    slice s (size before) (size before + size middle) = some (String.ofList middle) := by
  have start := isCharBoundary_size split
  have stop : isCharBoundary s (size before + size middle) = true := by
    rw [← size_append]
    exact @isCharBoundary_size s (before ++ middle) after (by rw [split,List.append_assoc])
  have bytes : ((bytesOf s).take (size before + size middle)).drop (size before) = bytesOf (String.ofList middle) := by
    rw [bytesOf_eq,split,Form.bytesOf_ofList,← List.append_assoc,encode_append,← size_append]
    have whole : (encode (before ++ middle) ++ encode after).take (size (before ++ middle)) =
        encode (before ++ middle) := List.take_left
    rw [whole,encode_append]
    exact List.drop_left
  have valid : (⟨(bytesOf (String.ofList middle)).toArray⟩ : ByteArray).IsValidUTF8 := by
    unfold bytesOf
    rw [Array.toArray_toList]
    exact (String.ofList middle).isValidUTF8
  unfold slice
  rw [if_pos ⟨Nat.le_add_right _ _,start,stop⟩,bytes,String.fromUTF8?,dif_pos valid]
  refine congrArg some ?_
  apply String.toByteArray_inj.mp
  rfl

end Slices

section TextSlices
variable {before middle after : List Char}

theorem sliceFrom_before (offset start stop : Nat) (rest : List Char) (below : offset + size before ≤ start) :
    Text.sliceFrom offset start stop (before ++ rest) = Text.sliceFrom (offset + size before) start stop rest := by
  induction before generalizing offset with
  | nil => rfl
  | cons c before ih =>
    rw [size_cons] at below
    have outside : ¬ (start ≤ offset ∧ offset < stop) := by
      have := c.utf8Size_pos
      omega
    rw [List.cons_append,Text.sliceFrom,if_neg outside,ih _ (by omega),size_cons,Nat.add_assoc]

theorem sliceFrom_inside (offset start stop : Nat) (rest : List Char) (low : start ≤ offset)
    (high : offset + size middle ≤ stop) :
    Text.sliceFrom offset start stop (middle ++ rest) =
      middle ++ Text.sliceFrom (offset + size middle) start stop rest := by
  induction middle generalizing offset with
  | nil => rfl
  | cons c middle ih =>
    rw [size_cons] at high
    have inside : start ≤ offset ∧ offset < stop := by
      have := c.utf8Size_pos
      omega
    rw [List.cons_append,Text.sliceFrom,if_pos inside,ih _ (by omega) (by omega),size_cons,Nat.add_assoc,
      List.cons_append]

theorem sliceFrom_behind (offset start stop : Nat) (rest : List Char) (above : stop ≤ offset) :
    Text.sliceFrom offset start stop rest = [] := by
  induction rest generalizing offset with
  | nil => rfl
  | cons c rest ih =>
    rw [Text.sliceFrom,if_neg (by omega),ih _ (by omega)]

/-- Where a slice is defined by its characters, it is the same. -/
theorem textSlice_eq {s : String} (split : s.toList = before ++ (middle ++ after)) :
    Text.slice s (size before) (size before + size middle) = String.ofList middle := by
  unfold Text.slice
  rw [split,sliceFrom_before _ _ _ _ (Nat.le_of_eq (Nat.zero_add _)),Nat.zero_add,
    sliceFrom_inside _ _ _ _ (Nat.le_refl _) (Nat.le_refl _),sliceFrom_behind _ _ _ _ (Nat.le_refl _),
    List.append_nil]

end TextSlices

end Utf8
