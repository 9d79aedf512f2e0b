import Ruuter.ConstantReferences
import Ruuter.Lib.Trim

/-! The constants file (`load_constants` of `src/config/mod.rs`): which constants can be written into one, and that
the loader then reads back these and no others. -/
namespace Ruuter

namespace Constants

/-- A line break of two characters. -/
def stripCr (line : String) : String :=
  if Text.endsWith line "\r" then String.ofList line.toList.dropLast else line

/-- `BufRead::lines`. -/
def textLines (text : String) : List String :=
  let pieces := Text.split text '\n'
  pieces.dropLast.map stripCr ++ pieces.getLast?.toList.filter (· ≠ "")

/-- What a line defines. -/
def lineEntry (line : String) : Option (String × String) :=
  let trimmed := Text.trim line
  if trimmed = "" ∨ Text.startsWith trimmed "#" = true then none
  else if Text.startsWith trimmed "[" = true ∧ Text.endsWith trimmed "]" = true then none
  else
    match trimmed.toList.span (· ≠ '=') with
    | (key,_ :: value) => some (Text.trim (String.ofList key),Text.trim (String.ofList value))
    | (_,[]) => none

def loadConstants (path : String) (contents : Option String) : Except RuuterError (StringMap String) :=
  match contents with
  | none => .error (.config ("Cannot open constants file: " ++ path))
  | some text =>
    .ok ((textLines text).foldl (fun constants line =>
      match lineEntry line with
      | some (key,value) => constants.insert key value
      | none => constants) ∅)

/-- A line of a constants file: a constant, or something else. -/
inductive FileLine
  | define (key value : String)
  | other (text : String)

def FileLine.text : FileLine → String
  | .define key value => key ++ "=" ++ value
  | .other text => text

def FileLine.defined : FileLine → Option (String × String)
  | .define key value => some (key,value)
  | .other _ => none

def definitions (file : List FileLine) : List (String × String) := file.filterMap FileLine.defined

def fileText (file : List FileLine) : String := "\n".intercalate (file.map FileLine.text)

/-- The constants that a line can hold. -/
structure Writable (key value : String) : Prop where
  key_trimmed : Text.trim key = key
  value_trimmed : Text.trim value = value
  one_equals : '=' ∉ key.toList
  one_line : '\n' ∉ key.toList ∧ '\n' ∉ value.toList
  no_comment : Text.startsWith key "#" = false
  no_section : ¬ (Text.startsWith key "[" = true ∧ Text.endsWith value "]" = true)

/-- The lines that define nothing: blank ones, comments, sections, and prose without an equals sign. -/
structure Ignored (text : String) : Prop where
  one_line : '\n' ∉ text.toList
  idle : Text.trim text = "" ∨ Text.startsWith (Text.trim text) "#" = true ∨
    (Text.startsWith (Text.trim text) "[" = true ∧ Text.endsWith (Text.trim text) "]" = true) ∨ '=' ∉ text.toList

section Lines

theorem startsWith_iff (s : String) (c : Char) :
    Text.startsWith s (String.singleton c) = true ↔ s.toList.head? = some c := by
  rw [Text.startsWith,String.toList_singleton]
  cases s.toList with
  | nil => simp [List.isPrefixOf]
  | cons first rest => simp [List.isPrefixOf,eq_comm (a := c)]

theorem endsWith_iff (s : String) (c : Char) :
    Text.endsWith s (String.singleton c) = true ↔ s.toList.getLast? = some c := by
  rw [Text.endsWith,String.toList_singleton,List.isSuffixOf_iff_suffix,List.getLast?_eq_some_iff]
  exact ⟨fun ⟨rest,same⟩ => ⟨rest,same.symm⟩,fun ⟨rest,same⟩ => ⟨rest,same.symm⟩⟩

/-- A line defines something when it has an equals sign and is neither a comment nor a section. -/
theorem lineEntry_iff :
    lineEntry line = some (key,value) ↔ ∃ before after, (Text.trim line).toList = before ++ '=' :: after ∧
    '=' ∉ before ∧ Text.startsWith (Text.trim line) "#" = false ∧
    ¬ (Text.startsWith (Text.trim line) "[" = true ∧ Text.endsWith (Text.trim line) "]" = true) ∧
    Text.trim (String.ofList before) = key ∧ Text.trim (String.ofList after) = value := by
  unfold lineEntry
  generalize Text.trim line = trimmed
  dsimp only
  rw [List.span_eq_takeWhile_dropWhile]
  have whole := List.takeWhile_append_dropWhile (p := (· ≠ '=')) (l := trimmed.toList)
  have clean : '=' ∉ trimmed.toList.takeWhile (· ≠ '=') := fun member => by simpa using List.mem_takeWhile_imp member
  constructor
  · intro defined
    split_ifs at defined with skipped sectioned
    split at defined
    · rename_i key' stop value' parts
      obtain ⟨front,back⟩ := Prod.mk.inj parts
      have closes : stop = '=' := by
        have head := List.head?_dropWhile_not (· ≠ '=') trimmed.toList
        rw [back] at head
        simpa using head
      rw [front] at clean
      rw [front,back,closes] at whole
      obtain ⟨rfl,rfl⟩ := Prod.mk.inj (Option.some.inj defined)
      exact ⟨key',value',whole.symm,clean,Bool.eq_false_iff.mpr fun comment => skipped (.inr comment),sectioned,rfl,rfl⟩
    · cases defined
  · rintro ⟨before,after,parts,free,comment,sectioned,rfl,rfl⟩
    have nonempty : ¬ (trimmed = "" ∨ Text.startsWith trimmed "#" = true) := by
      rintro (rfl | starts)
      · simp at parts
      · rw [comment] at starts
        cases starts
    have passes : ∀ c ∈ before, decide (c ≠ '=') = true := fun c member => decide_eq_true fun same => free (same ▸ member)
    rw [if_neg nonempty,if_neg sectioned,parts,List.takeWhile_append_of_pos passes,List.dropWhile_append_of_pos passes]
    simp

theorem trim_stripCr (line : String) : Text.trim (stripCr line) = Text.trim line := by
  unfold stripCr
  split
  · rename_i ends
    obtain ⟨rest,same⟩ := List.getLast?_eq_some_iff.mp ((endsWith_iff line '\r').mp ends)
    have blank : ∀ c ∈ ['\r'], Text.isWhiteSpace c = true := by
      intro c member
      rw [List.mem_singleton.mp member]
      decide
    calc Text.trim (String.ofList line.toList.dropLast)
        = Text.trim (String.ofList rest) := by rw [same,List.dropLast_concat]
      _ = Text.trim (String.ofList (rest ++ ['\r'])) := (Text.trim_append blank rest).symm
      _ = Text.trim line := by rw [← same,String.ofList_toList]
  · rfl

theorem lineEntry_stripCr (line : String) : lineEntry (stripCr line) = lineEntry line := by
  unfold lineEntry
  rw [trim_stripCr]

theorem lineEntry_ignored (ignored : Ignored text) : lineEntry text = none := by
  rw [Option.eq_none_iff_forall_ne_some]
  rintro ⟨key,value⟩ defined
  obtain ⟨before,after,parts,_,comment,sectioned,_⟩ := lineEntry_iff.mp defined
  rcases ignored.idle with blank | starts | bracketed | prose
  · rw [blank] at parts
    simp at parts
  · rw [comment] at starts
    cases starts
  · exact sectioned bracketed
  · refine prose (Text.trim_subset text ?_)
    rw [parts]
    exact List.mem_append_right before List.mem_cons_self

theorem head_define (key value : String) : (key ++ "=" ++ value).toList.head? = some (key.toList.head?.getD '=') := by
  have chars : (key ++ "=" ++ value).toList = key.toList ++ '=' :: value.toList := by simp
  rw [chars,List.head?_append]
  cases key.toList.head? <;> rfl

theorem last_define (key value : String) :
    (key ++ "=" ++ value).toList.getLast? = some (value.toList.getLast?.getD '=') := by
  have chars : (key ++ "=" ++ value).toList = (key.toList ++ ['=']) ++ value.toList := by simp
  rw [chars,List.getLast?_append,List.getLast?_concat]
  cases value.toList.getLast? <;> rfl

theorem lineEntry_define (writable : Writable key value) : lineEntry (key ++ "=" ++ value) = some (key,value) := by
  have bareKey := Text.trim_eq_iff.mp writable.key_trimmed
  have bareValue := Text.trim_eq_iff.mp writable.value_trimmed
  have first : ∀ c, (key ++ "=" ++ value).toList.head? = some c → key.toList.head? = some c ∨ c = '=' := by
    intro c found
    rw [head_define] at found
    cases head : key.toList.head? with
    | none => exact .inr (by rw [head] at found; exact (Option.some.inj found).symm)
    | some other => exact .inl (by rw [head] at found; exact found)
  have last : ∀ c, (key ++ "=" ++ value).toList.getLast? = some c → value.toList.getLast? = some c ∨ c = '=' := by
    intro c found
    rw [last_define] at found
    cases tail : value.toList.getLast? with
    | none => exact .inr (by rw [tail] at found; exact (Option.some.inj found).symm)
    | some other => exact .inl (by rw [tail] at found; exact found)
  have whole : Text.trim (key ++ "=" ++ value) = key ++ "=" ++ value := by
    refine Text.trim_of_bare ⟨fun c found => ?_,fun c found => ?_⟩
    · exact (first c found).elim (bareKey.front c) fun equals => equals ▸ by decide
    · exact (last c found).elim (bareValue.back c) fun equals => equals ▸ by decide
  refine lineEntry_iff.mpr ⟨key.toList,value.toList,?_,writable.one_equals,?_,?_,?_,?_⟩
  · rw [whole]
    simp
  · rw [whole,Bool.eq_false_iff]
    intro comment
    rcases first '#' ((startsWith_iff _ '#').mp comment) with head | other
    · exact absurd ((startsWith_iff key '#').mpr head) (Bool.eq_false_iff.mp writable.no_comment)
    · exact absurd other (by decide)
  · rw [whole]
    rintro ⟨opens,closes⟩
    rcases first '[' ((startsWith_iff _ '[').mp opens) with head | other
    · rcases last ']' ((endsWith_iff _ ']').mp closes) with tail | other
      · exact writable.no_section ⟨(startsWith_iff key '[').mpr head,(endsWith_iff value ']').mpr tail⟩
      · exact absurd other (by decide)
    · exact absurd other (by decide)
  · rw [String.ofList_toList,writable.key_trimmed]
  · rw [String.ofList_toList,writable.value_trimmed]

/-- The loader gives nothing but constants that a line can hold. -/
theorem lineEntry_writable (clean : '\n' ∉ line.toList) (defined : lineEntry line = some (key,value)) :
    Writable key value := by
  obtain ⟨before,after,parts,free,comment,sectioned,rfl,rfl⟩ := lineEntry_iff.mp defined
  have bare := Text.bare_trim line
  have first : ∀ c, before.head? = some c → (Text.trim line).toList.head? = some c := by
    intro c head
    rw [parts,List.head?_append,head]
    rfl
  have last : ∀ c, after.getLast? = some c → (Text.trim line).toList.getLast? = some c := by
    intro c tail
    rw [parts,List.getLast?_append,List.getLast?_cons,tail]
    rfl
  have opens : ∀ c, (Text.trim (String.ofList before)).toList.head? = some c →
      (Text.trim line).toList.head? = some c := by
    intro c head
    obtain ⟨rest,whole⟩ := Text.trim_prefix (s := String.ofList before) fun c head =>
      bare.front c (first c (by rwa [String.toList_ofList] at head))
    refine first c ?_
    rw [← String.toList_ofList (l := before),← whole,List.head?_append,head]
    rfl
  have closes : ∀ c, (Text.trim (String.ofList after)).toList.getLast? = some c →
      (Text.trim line).toList.getLast? = some c := by
    intro c tail
    obtain ⟨rest,whole⟩ := Text.trim_suffix (s := String.ofList after) fun c tail =>
      bare.back c (last c (by rwa [String.toList_ofList] at tail))
    refine last c ?_
    rw [← String.toList_ofList (l := after),← whole,List.getLast?_append,tail]
    rfl
  have inBefore : (Text.trim (String.ofList before)).toList ⊆ before := by
    simpa using Text.trim_subset (String.ofList before)
  have inAfter : (Text.trim (String.ofList after)).toList ⊆ after := by
    simpa using Text.trim_subset (String.ofList after)
  have inLine : before ++ '=' :: after ⊆ line.toList := parts ▸ Text.trim_subset line
  exact {
    key_trimmed := Text.trim_trim _
    value_trimmed := Text.trim_trim _
    one_equals := fun member => free (inBefore member)
    one_line := ⟨fun member => clean (inLine (List.mem_append_left _ (inBefore member))),
      fun member => clean (inLine (List.mem_append_right _ (List.mem_cons_of_mem _ (inAfter member))))⟩
    no_comment := by
      rw [Bool.eq_false_iff]
      intro starts
      have head := opens '#' ((startsWith_iff _ '#').mp starts)
      exact absurd ((startsWith_iff _ '#').mpr head) (Bool.eq_false_iff.mp comment)
    no_section := fun ⟨starts,ends⟩ => sectioned
      ⟨(startsWith_iff _ '[').mpr (opens '[' ((startsWith_iff _ '[').mp starts)),
        (endsWith_iff _ ']').mpr (closes ']' ((endsWith_iff _ ']').mp ends))⟩ }

end Lines

section File
variable {file : List FileLine}

theorem mem_definitions : (key,value) ∈ definitions file ↔ FileLine.define key value ∈ file := by
  rw [definitions,List.mem_filterMap]
  constructor
  · rintro ⟨line,member,defined⟩
    cases line with
    | define => cases defined; exact member
    | other => cases defined
  · exact fun member => ⟨_,member,rfl⟩

theorem loadConstants_lookup (path text : String) : ∃ constants, loadConstants path (some text) = .ok constants ∧
    ∀ key, constants.lookup key = Assoc.latest ((textLines text).filterMap lineEntry) key := by
  refine ⟨_,rfl,?_⟩
  intro key
  have fold : ∀ (lines : List String) (constants : StringMap String), lines.foldl (fun constants line =>
      match lineEntry line with
      | some (key,value) => constants.insert key value
      | none => constants) constants =
        (lines.filterMap lineEntry).foldl (fun constants entry => constants.insert entry.1 entry.2) constants := by
    intro lines
    induction lines with
    | nil => exact fun _ => rfl
    | cons line rest ih =>
      intro constants
      rw [List.foldl_cons,ih]
      cases defined : lineEntry line with
      | none => rw [List.filterMap_cons_none defined]
      | some entry => rw [List.filterMap_cons_some defined]; rfl
  rw [fold,Assoc.lookup_foldl_latest]
  exact Option.or_none

theorem stripCr_subset (line : String) : (stripCr line).toList ⊆ line.toList := by
  unfold stripCr
  split
  · rw [String.toList_ofList]
    exact List.dropLast_subset _
  · exact List.Subset.refl _

theorem textLines_clean (member : line ∈ textLines text) : '\n' ∉ line.toList := by
  rcases List.mem_append.mp member with stripped | last
  · obtain ⟨piece,before,rfl⟩ := List.mem_map.mp stripped
    exact fun broken => Text.not_mem_of_mem_split (List.mem_of_mem_dropLast before) (stripCr_subset piece broken)
  · have final := (List.mem_filter.mp last).1
    rw [Option.mem_toList] at final
    exact Text.not_mem_of_mem_split (List.mem_of_getLast? final)

/-- A blank line defines nothing, so that it does not matter whether it is read. -/
theorem entries_last (line : String) : ([line].filter (· ≠ "")).filterMap lineEntry = [line].filterMap lineEntry := by
  by_cases blank : line = ""
  · have none : lineEntry line = none := lineEntry_ignored (blank ▸ ⟨by decide,.inl (by decide)⟩)
    rw [List.filterMap_cons_none none,List.filter_cons_of_neg (by simpa using blank),List.filter_nil]
  · rw [List.filter_cons_of_pos (by simpa using blank),List.filter_nil]

/-- How the lines of a text end does not matter. -/
theorem textLines_entries (text : String) :
    (textLines text).filterMap lineEntry = (Text.split text '\n').filterMap lineEntry := by
  have nonempty := Text.split_ne_nil text '\n'
  unfold textLines
  generalize Text.split text '\n' = pieces at nonempty
  dsimp only
  rw [List.getLast?_eq_getLast_of_ne_nil nonempty,List.filterMap_append,List.filterMap_map,
    Option.toList_some,entries_last]
  simp only [Function.comp_def,lineEntry_stripCr]
  rw [← List.filterMap_append,List.dropLast_append_getLast]

theorem entries_fileText (clean : ∀ line ∈ file, '\n' ∉ line.text.toList) :
    (textLines (fileText file)).filterMap lineEntry = file.filterMap fun line => lineEntry line.text := by
  rw [textLines_entries,fileText]
  cases file with
  | nil => decide
  | cons first rest =>
    have pieces : ∀ piece ∈ (first :: rest).map FileLine.text, '\n' ∉ piece.toList := by
      intro piece member
      obtain ⟨line,inside,rfl⟩ := List.mem_map.mp member
      exact clean line inside
    have split : Text.split ("\n".intercalate ((first :: rest).map FileLine.text)) '\n' =
        (first :: rest).map FileLine.text :=
      Text.split_intercalate pieces (by simp)
    rw [split,List.filterMap_map]
    simp only [Function.comp_def]

/-- A file with one line for each constant is read back as it was written exactly when a line can hold each of its
constants. -/
theorem constants_read_back (path : String) (file : List FileLine) (distinct : ((definitions file).map Prod.fst).Nodup)
    (ignored : ∀ text, .other text ∈ file → Ignored text) :
    (∃ constants, loadConstants path (some (fileText file)) = .ok constants ∧
      ∀ key, constants.lookup key = Assoc.latest (definitions file) key) ↔
    ∀ key value, .define key value ∈ file → Writable key value := by
  obtain ⟨read,loaded,lookup⟩ := loadConstants_lookup path (fileText file)
  constructor
  · rintro ⟨constants,same,agree⟩ key value member
    rw [loaded] at same
    cases same
    have held := (Assoc.latest_of_nodup distinct).mpr (mem_definitions.mpr member)
    rw [← agree,lookup] at held
    obtain ⟨line,inside,defined⟩ := List.mem_filterMap.mp (Assoc.mem_of_latest held)
    exact lineEntry_writable (textLines_clean inside) defined
  · intro writable
    refine ⟨read,loaded,fun key => ?_⟩
    have clean : ∀ line ∈ file, '\n' ∉ line.text.toList := by
      intro line member
      cases line with
      | define key value =>
        have inside := (writable key value member).one_line
        simpa [FileLine.text] using inside
      | other text => exact (ignored text member).one_line
    have entries : file.filterMap (fun line => lineEntry line.text) = definitions file := by
      refine List.filterMap_congr fun line member => ?_
      cases line with
      | define key value => exact lineEntry_define (writable key value member)
      | other text => exact lineEntry_ignored (ignored text member)
    rw [lookup,entries_fileText clean,entries]

/-- A section, a comment, and two constants. -/
def sampleFile (key : String) : List FileLine :=
  [.other "[DSL]",.define "HOST" "example:80",.other "# a comment",.define key "/menu"]

theorem sample_ignored (listed : .other text ∈ sampleFile key) : Ignored text := by
  have noted : text = "[DSL]" ∨ text = "# a comment" := by
    simpa [sampleFile] using listed
  rcases noted with rfl | rfl
  · exact ⟨by decide,.inr (.inr (.inl (by decide)))⟩
  · exact ⟨by decide,.inr (.inl (by decide))⟩

/-- The sample is read back with a trimmed key, and is not with a blank behind it. -/
theorem constants_read_back_sample :
    (∃ constants, loadConstants "constants.ini" (some (fileText (sampleFile "PATH"))) = .ok constants ∧
      ∀ key, constants.lookup key = Assoc.latest (definitions (sampleFile "PATH")) key) ∧
    ¬ ∃ constants, loadConstants "constants.ini" (some (fileText (sampleFile "PATH "))) = .ok constants ∧
      ∀ key, constants.lookup key = Assoc.latest (definitions (sampleFile "PATH ")) key := by
  constructor
  · apply (constants_read_back "constants.ini" (sampleFile "PATH") (by decide) fun _ => sample_ignored).mpr
    intro key value member
    have defined : key = "HOST" ∧ value = "example:80" ∨ key = "PATH" ∧ value = "/menu" := by
      simpa [sampleFile] using member
    rcases defined with ⟨rfl,rfl⟩ | ⟨rfl,rfl⟩
    · exact ⟨by decide,by decide,by decide,by decide,by decide,by decide⟩
    · exact ⟨by decide,by decide,by decide,by decide,by decide,by decide⟩
  · intro read
    have writable := (constants_read_back "constants.ini" (sampleFile "PATH ") (by decide)
      fun _ => sample_ignored).mp read "PATH " "/menu" (by simp [sampleFile])
    exact absurd writable.key_trimmed (by decide)

end File

end Constants

end Ruuter
