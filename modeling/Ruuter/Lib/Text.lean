import Mathlib.Algebra.Group.Nat.Defs
import Mathlib.Data.List.Infix
import Mathlib.Data.List.TakeWhile

/-! Strings as character lists: prefixes, splitting and joining in a form that evaluates.
Sizes are UTF-8 byte sizes. -/
namespace Text

def startsWith (s p : String) : Bool := p.toList.isPrefixOf s.toList

def endsWith (s p : String) : Bool := p.toList.isSuffixOf s.toList

def contains (s p : String) : Bool := s.toList.tails.any (p.toList.isPrefixOf ·)

def stripPrefix (s p : String) : Option String :=
  if startsWith s p then some (String.ofList (s.toList.drop p.toList.length)) else none

def split (s : String) (separator : Char) : List String :=
  (s.toList.splitOn separator).map String.ofList

/-- The characters that start within a range of byte offsets. -/
def sliceFrom : (offset start stop : Nat) → List Char → List Char
  | _, _, _, [] => []
  | offset, start, stop, c :: rest =>
    if start ≤ offset ∧ offset < stop then c :: sliceFrom (offset + c.utf8Size) start stop rest
    else sliceFrom (offset + c.utf8Size) start stop rest

def slice (s : String) (start stop : Nat) : String := String.ofList (sliceFrom 0 start stop s.toList)

/-- `str::trim_matches` with one character. -/
def trimMatches (s : String) (c : Char) : String :=
  String.ofList (((s.toList.dropWhile (· == c)).reverse.dropWhile (· == c)).reverse)

/-- The code points with the Unicode property White_Space. -/
def isWhiteSpace (c : Char) : Bool :=
  let n := c.toNat
  (9 ≤ n && n ≤ 13) || n == 0x20 || n == 0x85 || n == 0xA0 || n == 0x1680 ||
    (0x2000 ≤ n && n ≤ 0x200A) || n == 0x2028 || n == 0x2029 || n == 0x202F || n == 0x205F ||
    n == 0x3000

/-- `str::trim`. -/
def trim (s : String) : String :=
  String.ofList (((s.toList.dropWhile isWhiteSpace).reverse.dropWhile isWhiteSpace).reverse)

def toAsciiLowercase (s : String) : String := String.ofList (s.toList.map Char.toLower)

/-- Every character is checked where the list is looked through, not where all characters are. -/
theorem forall_mem_of_all {p : Char → Prop} [DecidablePred p] {chars : List Char}
    (all : chars.all (fun c => decide (p c)) = true) : ∀ c ∈ chars, p c :=
  fun c member => of_decide_eq_true (List.all_eq_true.mp all c member)

theorem toLower_idem (c : Char) : c.toLower.toLower = c.toLower := by
  unfold Char.toLower
  split
  · rename_i upper
    rw [dif_neg]
    intro again
    have low : 65 ≤ c.val.toNat := upper.1
    have high : c.val.toNat ≤ 90 := upper.2
    have sum : (c.val + ('a'.val - 'A'.val)).toNat = c.val.toNat + 32 := by
      rw [UInt32.toNat_add]
      show (c.val.toNat + 32) % 2 ^ 32 = _
      omega
    have bound : (c.val + ('a'.val - 'A'.val)).toNat ≤ 90 := again.2
    omega
  · rfl

theorem toAsciiLowercase_idem (s : String) : toAsciiLowercase (toAsciiLowercase s) = toAsciiLowercase s := by
  unfold toAsciiLowercase
  rw [String.toList_ofList,List.map_map]
  congr 1
  apply List.map_congr_left
  intro c _
  exact toLower_idem c

/-- `str::parse` for an unsigned integer of 64 bits. -/
def parseU64 (s : String) : Option Nat :=
  let digits := if startsWith s "+" then s.toList.tail else s.toList
  if digits ≠ [] ∧ digits.all Char.isDigit then
    let value := digits.foldl (fun acc c => acc * 10 + (c.toNat - '0'.toNat)) 0
    if value < 2 ^ 64 then some value else none
  else none

theorem startsWith_iff : startsWith s p = true ↔ ∃ rest, s = p ++ rest := by
  simp only [startsWith,List.isPrefixOf_iff_prefix]
  constructor
  · rintro ⟨tail,eq⟩
    exact ⟨String.ofList tail,by rw [← String.toList_inj]; simp [← eq]⟩
  · rintro ⟨rest,rfl⟩
    exact ⟨rest.toList,by simp⟩

theorem startsWith_append (p rest : String) : startsWith (p ++ rest) p = true :=
  startsWith_iff.mpr ⟨rest,rfl⟩

theorem startsWith_trans (first : startsWith q p = true) (second : startsWith s q = true) :
    startsWith s p = true := by
  obtain ⟨left,rfl⟩ := startsWith_iff.mp first
  obtain ⟨right,rfl⟩ := startsWith_iff.mp second
  rw [String.append_assoc]
  exact startsWith_append ..

theorem stripPrefix_iff {text start rest : String} :
    stripPrefix text start = some rest ↔ text = start ++ rest := by
  unfold stripPrefix
  constructor
  · intro found
    split at found
    · rename_i starts
      obtain ⟨other,rfl⟩ := startsWith_iff.mp starts
      cases found
      simp
    · cases found
  · rintro rfl
    rw [if_pos (startsWith_append ..)]
    simp

theorem contains_iff : contains s p = true ↔ p.toList <:+: s.toList := by
  unfold contains
  rw [List.any_eq_true]
  constructor
  · rintro ⟨tail,member,starts⟩
    exact (List.isPrefixOf_iff_prefix.mp starts).isInfix.trans ((List.mem_tails _ _).mp member).isInfix
  · intro inside
    obtain ⟨tail,starts,ends⟩ := List.infix_iff_prefix_suffix.mp inside
    exact ⟨tail,(List.mem_tails _ _).mpr ends,List.isPrefixOf_iff_prefix.mpr starts⟩

section Occurrences
variable {α : Type} {marker text later : List α}

/-- The marker stands at a position of the text. -/
def OccursAt (marker text : List α) (i : Nat) : Prop := marker <+: text.drop i

theorem infix_iff_occursAt : marker <:+: text ↔ ∃ i, OccursAt marker text i := by
  constructor
  · rintro ⟨before,after,rfl⟩
    refine ⟨before.length,after,?_⟩
    rw [List.append_assoc,List.drop_left]
  · rintro ⟨i,starts⟩
    exact starts.isInfix.trans (List.drop_suffix i text).isInfix

/-- What follows a text does not reach into an occurrence that ends in the text. -/
theorem occursAt_append_left (inside : i + marker.length ≤ text.length) :
    OccursAt marker (text ++ later) i ↔ OccursAt marker text i := by
  unfold OccursAt
  rw [List.drop_append_of_le_length (Nat.le_of_add_right_le inside)]
  constructor
  · intro occurs
    refine List.prefix_of_prefix_length_le occurs (List.prefix_append _ _) ?_
    rw [List.length_drop]
    omega
  · exact fun occurs => occurs.trans (List.prefix_append _ _)

theorem occursAt_append_right : OccursAt marker (text ++ later) (text.length + i) ↔ OccursAt marker later i := by
  unfold OccursAt
  rw [List.drop_append,List.drop_eq_nil_of_le (Nat.le_add_right _ _),List.nil_append,Nat.add_sub_cancel_left]

/-- A character of the marker stands where the marker does. -/
theorem OccursAt.getElem? (occurs : OccursAt marker text i) (inside : k < marker.length) :
    text[i + k]? = marker[k]? := by
  obtain ⟨rest,same⟩ := occurs
  rw [← List.getElem?_drop,← same,List.getElem?_append_left inside]

end Occurrences

/-- The slice of a whole text. -/
theorem slice_whole (s : String) : slice s 0 s.utf8ByteSize = s := by
  have all : ∀ (text : List Char) (offset : Nat),
      sliceFrom offset 0 (offset + (String.ofList text).utf8ByteSize) text = text := by
    intro text
    induction text with
    | nil => exact fun _ => rfl
    | cons c rest ih =>
      intro offset
      have size : (String.ofList (c :: rest)).utf8ByteSize = c.utf8Size + (String.ofList rest).utf8ByteSize := by
        rw [String.ofList_cons,String.utf8ByteSize_append,String.utf8ByteSize_singleton]
      have inside : offset < offset + (c.utf8Size + (String.ofList rest).utf8ByteSize) := by
        have := c.utf8Size_pos
        omega
      rw [size,sliceFrom,if_pos ⟨Nat.zero_le _,inside⟩,← Nat.add_assoc,ih]
  have whole := all s.toList 0
  rw [String.ofList_toList,Nat.zero_add] at whole
  unfold slice
  rw [whole,String.ofList_toList]

/-- A prefix of full size is the whole string. -/
theorem eq_of_startsWith (given : startsWith s p = true)
    (size : s.utf8ByteSize ≤ p.utf8ByteSize) : s = p := by
  obtain ⟨rest,rfl⟩ := startsWith_iff.mp given
  rw [String.utf8ByteSize_append] at size
  have empty : rest = "" := String.utf8ByteSize_eq_zero_iff.mp (by omega)
  rw [empty,String.append_empty]

/-- Of two prefixes of one string the one that is not larger is a prefix of the other. -/
theorem startsWith_of_size_le (left : startsWith s p = true) (right : startsWith s q = true)
    (size : p.utf8ByteSize ≤ q.utf8ByteSize) : startsWith q p = true := by
  have nested : p.toList <+: q.toList ∨ q.toList <+: p.toList :=
    List.prefix_or_prefix_of_prefix (List.isPrefixOf_iff_prefix.mp left)
      (List.isPrefixOf_iff_prefix.mp right)
  rcases nested with shorter | longer
  · exact List.isPrefixOf_iff_prefix.mpr shorter
  · have whole : p = q := eq_of_startsWith (List.isPrefixOf_iff_prefix.mpr longer) size
    rw [whole]
    exact startsWith_iff.mpr ⟨"",by simp⟩

/-- The pieces of a split do not hold the separator. -/
theorem not_mem_of_mem_split (member : piece ∈ split s separator) : separator ∉ piece.toList := by
  obtain ⟨chars,found,rfl⟩ := List.mem_map.mp member
  rw [String.toList_ofList]
  have each : ∀ (text : List Char), ∀ chars ∈ text.splitOn separator, separator ∉ chars := by
    intro text
    induction text with
    | nil => simp
    | cons c rest ih =>
      rw [List.splitOn_cons_eq_if_modifyHead]
      split
      · simpa using ih
      · rename_i other
        cases pieces : rest.splitOn separator with
        | nil => exact absurd pieces (List.splitOn_ne_nil _ _)
        | cons first later =>
          rw [pieces] at ih
          simp only [List.modifyHead_cons,List.mem_cons,forall_eq_or_imp] at ih ⊢
          exact ⟨fun equal => equal.elim (by rintro rfl; simp at other) ih.1,ih.2⟩
  exact each s.toList chars found

/-- The characters of a piece come from the text. -/
theorem mem_of_mem_split (member : piece ∈ split s separator) (char : c ∈ piece.toList) : c ∈ s.toList := by
  obtain ⟨chars,found,rfl⟩ := List.mem_map.mp member
  rw [String.toList_ofList] at char
  have each : ∀ (text : List Char), ∀ chars ∈ text.splitOn separator, ∀ c ∈ chars, c ∈ text := by
    intro text
    induction text with
    | nil => simp
    | cons d rest ih =>
      rw [List.splitOn_cons_eq_if_modifyHead]
      split
      · simp only [List.mem_cons,forall_eq_or_imp,List.not_mem_nil,false_imp_iff,implies_true,true_and]
        exact fun chars found c char => .inr (ih chars found c char)
      · cases pieces : rest.splitOn separator with
        | nil => exact absurd pieces (List.splitOn_ne_nil _ _)
        | cons first later =>
          rw [pieces] at ih
          simp only [List.modifyHead_cons,List.mem_cons,forall_eq_or_imp] at ih ⊢
          exact ⟨⟨.inl trivial,fun c char => .inr (ih.1 c char)⟩,
            fun chars found c char => .inr (ih.2 chars found c char)⟩
  exact each s.toList chars found c char

/-- Splitting undoes joining. -/
theorem split_intercalate (clean : ∀ piece ∈ pieces, separator ∉ piece.toList)
    (nonempty : pieces ≠ []) : split ((String.singleton separator).intercalate pieces) separator = pieces := by
  unfold split
  rw [String.toList_intercalate,String.toList_singleton,List.splitOn_intercalate]
  · simp [Function.comp_def]
  · simpa using clean
  · simpa using nonempty

theorem split_ne_nil (s : String) (separator : Char) : split s separator ≠ [] := by
  unfold split
  rw [Ne,List.map_eq_nil_iff]
  exact List.splitOn_ne_nil _ _

/-- Joining undoes splitting. -/
theorem intercalate_split (s : String) (separator : Char) :
    (String.singleton separator).intercalate (split s separator) = s := by
  apply String.toList_inj.mp
  unfold split
  rw [String.toList_intercalate,String.toList_singleton,List.map_map]
  simp [Function.comp_def,List.intercalate_splitOn]

theorem split_of_not_mem (clean : separator ∉ s.toList) : split s separator = [s] := by
  unfold split
  rw [List.splitOn_eq_singleton clean]
  simp

theorem split_append (first second : String) (separator : Char) :
    split (first ++ String.singleton separator ++ second) separator =
      split first separator ++ split second separator := by
  unfold split
  rw [← List.map_append,← List.splitOn_append_cons_self]
  simp

/-- Two texts of two parts are the same: so are the parts, or a separator of one first part ends the other. -/
theorem append_separator_eq_iff {first second other rest : String} {separator : Char} :
    first ++ String.singleton separator ++ second = other ++ String.singleton separator ++ rest ↔
      (first = other ∧ second = rest) ∨
      (∃ gap, other = first ++ String.singleton separator ++ gap ∧ second = gap ++ String.singleton separator ++ rest) ∨
      ∃ gap, first = other ++ String.singleton separator ++ gap ∧
        rest = gap ++ String.singleton separator ++ second := by
  constructor
  · intro same
    have same := congrArg String.toList same
    simp only [String.toList_append,String.toList_singleton,List.append_assoc,List.singleton_append] at same
    rcases List.append_eq_append_iff.mp same with ⟨_ | ⟨c,gap⟩,longer,tail⟩ | ⟨_ | ⟨c,gap⟩,longer,tail⟩
    · exact .inl ⟨by simpa [String.toList_inj] using longer.symm,by simpa [String.toList_inj] using tail⟩
    · rw [List.cons_append,List.cons.injEq] at tail
      obtain ⟨rfl,tail⟩ := tail
      refine .inr (.inl ⟨String.ofList gap,String.toList_inj.mp ?_,String.toList_inj.mp ?_⟩)
      · simp [longer]
      · simp [tail]
    · exact .inl ⟨by simpa [String.toList_inj] using longer,by simpa [String.toList_inj] using tail.symm⟩
    · rw [List.cons_append,List.cons.injEq] at tail
      obtain ⟨rfl,tail⟩ := tail
      refine .inr (.inr ⟨String.ofList gap,String.toList_inj.mp ?_,String.toList_inj.mp ?_⟩)
      · simp [longer]
      · simp [tail]
  · rintro (⟨rfl,rfl⟩ | ⟨gap,rfl,rfl⟩ | ⟨gap,rfl,rfl⟩)
    · rfl
    · simp only [String.append_assoc]
    · simp only [String.append_assoc]

/-- The first separator cuts a text in one way. -/
theorem append_separator_inj {first second other rest : String} {separator : Char}
    (clean : separator ∉ first.toList) (cleanOther : separator ∉ other.toList) :
    first ++ String.singleton separator ++ second = other ++ String.singleton separator ++ rest ↔
      first = other ∧ second = rest := by
  rw [append_separator_eq_iff]
  refine or_iff_left ?_
  rintro (⟨gap,rfl,_⟩ | ⟨gap,rfl,_⟩)
  · exact cleanOther (by simp)
  · exact clean (by simp)

/-- A text and what follows it behind a separator, piece by piece. -/
theorem split_prefix_iff (s p : String) (separator : Char) :
    split p separator <+: split s separator ↔ s = p ∨ startsWith s (p ++ String.singleton separator) = true := by
  constructor
  · rintro ⟨later,same⟩
    by_cases empty : later = []
    · rw [empty,List.append_nil] at same
      left
      rw [← intercalate_split s separator,← same,intercalate_split]
    · right
      apply startsWith_iff.mpr
      refine ⟨(String.singleton separator).intercalate later,?_⟩
      rw [← intercalate_split s separator,← same,
        String.intercalate_append_of_ne_nil (split_ne_nil p separator) empty,intercalate_split]
  · rintro (rfl | starts)
    · exact List.prefix_rfl
    · obtain ⟨rest,rfl⟩ := startsWith_iff.mp starts
      rw [split_append]
      exact List.prefix_append _ _

/-- Each part of a joined text is split on its own. -/
theorem split_intercalate_flatMap (parts : List String) (nonempty : parts ≠ []) (separator : Char) :
    split ((String.singleton separator).intercalate parts) separator = parts.flatMap (split · separator) := by
  induction parts with
  | nil => exact absurd rfl nonempty
  | cons part rest ih =>
    by_cases last : rest = []
    · subst last
      simp
    · rw [String.intercalate_cons_of_ne_nil last,split_append,ih last]
      rfl

section Pieces

/-- The first piece of a split. -/
theorem split_headD (s : String) (separator : Char) :
    (split s separator).headD "" = String.ofList (s.toList.takeWhile (· ≠ separator)) := by
  have first : ∀ text : List Char,
      ((text.splitOn separator).map String.ofList).headD "" = String.ofList (text.takeWhile (· ≠ separator)) := by
    intro text
    induction text with
    | nil => rfl
    | cons c rest ih =>
      rw [List.splitOn_cons_eq_if_modifyHead]
      by_cases same : c = separator
      · simp [same]
      · cases pieces : rest.splitOn separator with
        | nil => exact absurd pieces (List.splitOn_ne_nil _ _)
        | cons piece later =>
          rw [pieces] at ih
          simp only [List.map_cons,List.headD_cons,String.ofList_inj] at ih
          simp [same,ih]
  exact first s.toList

/-- Trimming after changing characters, none of them from or to white space. -/
theorem trim_map {f : Char → Char} (white : ∀ c, isWhiteSpace (f c) = isWhiteSpace c) (text : List Char) :
    trim (String.ofList (text.map f)) = String.ofList ((trim (String.ofList text)).toList.map f) := by
  have same : isWhiteSpace ∘ f = isWhiteSpace := funext white
  unfold trim
  simp only [String.toList_ofList,List.dropWhile_map,same,← List.map_reverse]

/-- White space at the end is trimmed. -/
theorem trim_append {gap : List Char} (blank : ∀ c ∈ gap, isWhiteSpace c = true) (text : List Char) :
    trim (String.ofList (text ++ gap)) = trim (String.ofList text) := by
  have reversed : ∀ c ∈ gap.reverse, isWhiteSpace c = true := fun c member => blank c (List.mem_reverse.mp member)
  unfold trim
  simp only [String.toList_ofList]
  rw [List.dropWhile_append]
  split
  · rename_i all
    rw [List.dropWhile_eq_nil_iff.mpr blank,List.isEmpty_iff.mp all]
  · rw [List.reverse_append,List.dropWhile_append_of_pos reversed]

end Pieces

section TrimStart

def trimStartChars : Nat → List Char → List Char → List Char
  | 0, _, s => s
  | n + 1, p, s => if p.isPrefixOf s then trimStartChars n p (s.drop p.length) else s

/-- `str::trim_start_matches` with a text. -/
def trimStartMatches (s p : String) : String :=
  String.ofList (trimStartChars s.toList.length p.toList s.toList)

theorem trimStartChars_bound {p : List Char} (nonempty : p ≠ []) (s : List Char) (bound : s.length ≤ n) :
    trimStartChars n p s = trimStartChars s.length p s := by
  have positive := List.length_pos_iff.mpr nonempty
  induction n using Nat.strong_induction_on generalizing s with
  | _ n ih =>
    cases n with
    | zero => rw [Nat.le_zero.mp bound]
    | succ n =>
      cases size : s.length with
      | zero =>
        rw [List.length_eq_zero_iff.mp size]
        cases p with
        | nil => exact absurd rfl nonempty
        | cons c p => rfl
      | succ m =>
        rw [size] at bound
        rw [trimStartChars,trimStartChars]
        split
        · have shorter : (s.drop p.length).length ≤ m := by
            rw [List.length_drop]
            omega
          rw [ih n (Nat.lt_succ_self n) _ (by omega),ih m (by omega) _ shorter]
        · rfl

theorem trimStartMatches_append (p rest : String) (nonempty : p.toList ≠ []) :
    trimStartMatches (p ++ rest) p = trimStartMatches rest p := by
  have positive := List.length_pos_iff.mpr nonempty
  unfold trimStartMatches
  rw [String.toList_append,List.length_append]
  obtain ⟨n,size⟩ := Nat.exists_eq_succ_of_ne_zero (show p.toList.length + rest.toList.length ≠ 0 by omega)
  rw [size,trimStartChars,if_pos (List.isPrefixOf_iff_prefix.mpr (List.prefix_append _ _)),List.drop_left,
    trimStartChars_bound nonempty rest.toList (by omega)]

theorem trimStartMatches_of_not (other : startsWith s p = false) : trimStartMatches s p = s := by
  unfold trimStartMatches
  cases size : s.toList.length with
  | zero => exact String.ofList_toList
  | succ n =>
    have apart : p.toList.isPrefixOf s.toList = false := other
    rw [trimStartChars,apart,if_neg Bool.false_ne_true,String.ofList_toList]

end TrimStart

section Replace

/-- One character put for another. -/
def replaceChar (old new : Char) (s : String) : String :=
  String.ofList (s.toList.map fun c => if c = old then new else c)

theorem replaceChar_append (old new : Char) (first second : String) :
    replaceChar old new (first ++ second) = replaceChar old new first ++ replaceChar old new second := by
  simp [replaceChar]

theorem replaceChar_intercalate {old new : Char} {separator : String} (kept : replaceChar old new separator = separator)
    (parts : List String) : replaceChar old new (separator.intercalate parts) =
      separator.intercalate (parts.map (replaceChar old new)) := by
  induction parts with
  | nil => rfl
  | cons part rest ih =>
    by_cases last : rest = []
    · subst last
      simp
    · have later : rest.map (replaceChar old new) ≠ [] := by simpa using last
      rw [String.intercalate_cons_of_ne_nil last,replaceChar_append,replaceChar_append,kept,ih,List.map_cons,
        String.intercalate_cons_of_ne_nil later]

/-- Splitting at a character that was put for another. -/
theorem split_replaceChar (clean : new ∉ s.toList) : split (replaceChar old new s) new = split s old := by
  unfold split replaceChar
  rw [String.toList_ofList]
  congr 1
  generalize s.toList = text at clean
  induction text with
  | nil => rfl
  | cons c rest ih =>
    rw [List.mem_cons,not_or] at clean
    obtain ⟨apart,clean⟩ := clean
    rw [List.map_cons,List.splitOn_cons_eq_if_modifyHead,List.splitOn_cons_eq_if_modifyHead,ih clean]
    by_cases same : c = old
    · simp [same]
    · simp [same,Ne.symm apart]

end Replace

end Text
