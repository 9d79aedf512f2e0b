import Ruuter.Outbound
import Ruuter.Router

/-! Which content types denote JSON: the test on inbound bodies and on DSL responses
(`src/router/mod.rs`) and the test on upstream responses (`src/http_client/mod.rs`). -/
namespace Ruuter
namespace MediaTypes
open Text

/-- The inbound body is parsed as JSON. -/
def looksJson (contentType : String) : Bool := isJsonMime (mimeOf contentType)

/-- A DSL response with this content type may be emitted raw. -/
def dslWantsNonJson (contentType : String) : Bool :=
  let mime := mimeOf contentType
  !eqIgnoreAsciiCase mime "application/json" && !endsWith mime "+json"

/-- The three tests answer alike for two content types. -/
structure SameAnswers (contentType other : String) : Prop where
  inbound : looksJson other = looksJson contentType
  response : dslWantsNonJson other = dslWantsNonJson contentType
  upstream : contentTypeIsJson other = contentTypeIsJson contentType

/-- The tests agree on a content type, and neither the case of its letters nor parameters matter. -/
structure Consistent (contentType : String) : Prop where
  response : dslWantsNonJson contentType = !looksJson contentType
  upstream : contentTypeIsJson contentType = looksJson contentType
  anyCase : ∀ other, toAsciiLowercase other = toAsciiLowercase contentType → SameAnswers contentType other
  parameters : ∀ gap params : String, (∀ c ∈ gap.toList, isWhiteSpace c = true) →
    SameAnswers contentType (contentType ++ gap ++ ";" ++ params)

variable {contentType other mime : String}

theorem dslWantsNonJson_eq (contentType : String) : dslWantsNonJson contentType = !looksJson contentType := by
  simp only [dslWantsNonJson,looksJson,isJsonMime,Bool.not_or]

theorem mimeOf_eq (contentType : String) :
    mimeOf contentType = trim (String.ofList (contentType.toList.takeWhile (· ≠ ';'))) := by
  unfold mimeOf
  rw [split_headD]

/-- Changing characters that do not delimit a media type changes them in the media type. -/
theorem mimeOf_map {f : Char → Char} (white : ∀ c, isWhiteSpace (f c) = isWhiteSpace c)
    (semicolon : ∀ c, f c = ';' ↔ c = ';') (contentType : String) :
    mimeOf (String.ofList (contentType.toList.map f)) = String.ofList ((mimeOf contentType).toList.map f) := by
  have same : ((fun c => decide (c ≠ ';')) ∘ f) = fun c => decide (c ≠ ';') := by
    funext c
    simp [semicolon]
  rw [mimeOf_eq,mimeOf_eq,String.toList_ofList,List.takeWhile_map,same,trim_map white]

theorem mimeOf_parameters (contentType gap params : String) (blank : ∀ c ∈ gap.toList, isWhiteSpace c = true) :
    mimeOf (contentType ++ gap ++ ";" ++ params) = mimeOf contentType := by
  have pass : ∀ c ∈ gap.toList, decide (c ≠ ';') = true := by
    intro c member
    apply decide_eq_true
    rintro rfl
    exact absurd (blank _ member) (by decide)
  rw [mimeOf_eq,mimeOf_eq]
  simp only [String.toList_append,List.append_assoc]
  rw [List.takeWhile_append]
  split
  · rename_i whole
    have piece : (gap.toList ++ (";".toList ++ params.toList)).takeWhile (fun c => decide (c ≠ ';')) = gap.toList := by
      rw [List.takeWhile_append_of_pos pass]
      simp
    have free : contentType.toList.takeWhile (fun c => decide (c ≠ ';')) = contentType.toList :=
      (List.takeWhile_prefix _).eq_of_length whole
    rw [piece,free,trim_append blank]
  · rfl

/-- What holds of each ASCII character and of all others holds of all. -/
theorem of_ascii {P : Char → Prop} (ascii : ∀ n < 128, P (Char.ofNat n)) (other : ∀ c, 128 ≤ c.toNat → P c) (c : Char) :
    P c := by
  by_cases small : c.toNat < 128
  · have given := ascii c.toNat small
    rwa [Char.ofNat_toNat] at given
  · exact other c (Nat.le_of_not_lt small)

theorem toLower_other (c : Char) (large : 128 ≤ c.toNat) : c.toLower = c := by
  unfold Char.toLower
  rw [dif_neg]
  intro upper
  have high : c.toNat ≤ 90 := upper.2
  omega

theorem toUpper_other (c : Char) (large : 128 ≤ c.toNat) : c.toUpper = c := by
  unfold Char.toUpper
  rw [dif_neg]
  intro lower
  have high : c.toNat ≤ 122 := lower.2
  omega

theorem isWhiteSpace_toLower : ∀ c : Char, isWhiteSpace c.toLower = isWhiteSpace c :=
  of_ascii (by decide) fun c large => by rw [toLower_other c large]

theorem isWhiteSpace_toUpper : ∀ c : Char, isWhiteSpace c.toUpper = isWhiteSpace c :=
  of_ascii (by decide) fun c large => by rw [toUpper_other c large]

theorem toLower_semicolon : ∀ c : Char, c.toLower = ';' ↔ c = ';' :=
  of_ascii (by decide) fun c large => by rw [toLower_other c large]

theorem toUpper_semicolon : ∀ c : Char, c.toUpper = ';' ↔ c = ';' :=
  of_ascii (by decide) fun c large => by rw [toUpper_other c large]

theorem toLower_toUpper : ∀ c : Char, c.toUpper.toLower = c.toLower :=
  of_ascii (by decide) fun c large => by rw [toUpper_other c large]

theorem lower_upper (s : String) :
    toAsciiLowercase (String.ofList (s.toList.map Char.toUpper)) = toAsciiLowercase s := by
  unfold toAsciiLowercase
  rw [String.toList_ofList,List.map_map]
  congr 1
  exact List.map_congr_left fun c _ => toLower_toUpper c

/-- The media type of a content type in lower case. -/
theorem mimeOf_lower (contentType : String) :
    mimeOf (toAsciiLowercase contentType) = toAsciiLowercase (mimeOf contentType) :=
  mimeOf_map isWhiteSpace_toLower toLower_semicolon contentType

/-- Spellings of one content type have spellings of one media type. -/
theorem mimeOf_case (same : toAsciiLowercase other = toAsciiLowercase contentType) :
    toAsciiLowercase (mimeOf other) = toAsciiLowercase (mimeOf contentType) := by
  rw [← mimeOf_lower,← mimeOf_lower,same]

theorem eqIgnoreAsciiCase_json (mime : String) :
    eqIgnoreAsciiCase mime "application/json" = (toAsciiLowercase mime == "application/json") := by
  have plain : "application/json".toList.map Char.toLower = "application/json".toList := by decide
  have same : toAsciiLowercase mime = "application/json" ↔
      mime.toList.map Char.toLower = "application/json".toList := by
    rw [← String.toList_inj]
    simp only [toAsciiLowercase,String.toList_ofList]
  unfold eqIgnoreAsciiCase
  rw [plain,Bool.eq_iff_iff,beq_iff_eq,beq_iff_eq,same]

/-- A suffix in lower case is there in the text in lower case. -/
theorem endsWith_lower (ends : endsWith mime "+json" = true) : endsWith (toAsciiLowercase mime) "+json" = true := by
  obtain ⟨front,same⟩ := List.isSuffixOf_iff_suffix.mp ends
  apply List.isSuffixOf_iff_suffix.mpr
  refine ⟨front.map Char.toLower,?_⟩
  simp only [toAsciiLowercase,String.toList_ofList,← same,List.map_append]
  rfl

/-- Without the suffix in any case the first test is for one media type. -/
theorem looksJson_plain (plain : endsWith (toAsciiLowercase (mimeOf contentType)) "+json" = false) :
    looksJson contentType = (toAsciiLowercase (mimeOf contentType) == "application/json") := by
  have short : endsWith (mimeOf contentType) "+json" = false := by
    by_contra ends
    rw [endsWith_lower (Bool.not_eq_false _ ▸ ends)] at plain
    cases plain
  unfold looksJson isJsonMime
  rw [short,Bool.or_false,eqIgnoreAsciiCase_json]

/-- So is the test on upstream responses. -/
theorem contentTypeIsJson_plain (plain : endsWith (toAsciiLowercase (mimeOf contentType)) "+json" = false) :
    contentTypeIsJson contentType = (toAsciiLowercase (mimeOf contentType) == "application/json") := by
  have subtype : ((stripPrefix (toAsciiLowercase (mimeOf contentType)) "application/").map
      (endsWith · "+json")).getD false = false := by
    unfold stripPrefix
    split
    · rename_i starts
      obtain ⟨rest,same⟩ := startsWith_iff.mp starts
      rw [Option.map_some,Option.getD_some,same,String.toList_append,List.drop_left,String.ofList_toList]
      by_contra ends
      have inside : "+json".toList <:+ rest.toList := List.isSuffixOf_iff_suffix.mp (Bool.not_eq_false _ ▸ ends)
      have whole : endsWith (toAsciiLowercase (mimeOf contentType)) "+json" = true := by
        apply List.isSuffixOf_iff_suffix.mpr
        rw [same,String.toList_append]
        exact inside.trans (List.suffix_append _ _)
      rw [plain] at whole
      cases whole
    · rfl
  simp only [contentTypeIsJson,subtype,Bool.or_false]

/-- The test on upstream responses reads the media type in lower case. -/
theorem contentTypeIsJson_case (same : toAsciiLowercase (mimeOf other) = toAsciiLowercase (mimeOf contentType)) :
    contentTypeIsJson other = contentTypeIsJson contentType := by
  unfold contentTypeIsJson
  rw [same]

/-- A suffix is recognised in lower case only. -/
theorem looksJson_suffix (suffix : endsWith (toAsciiLowercase (mimeOf contentType)) "+json" = true) :
    looksJson (toAsciiLowercase contentType) = true ∧
      looksJson (String.ofList (contentType.toList.map Char.toUpper)) = false := by
  constructor
  · unfold looksJson isJsonMime
    rw [mimeOf_lower,suffix,Bool.or_true]
  · unfold looksJson isJsonMime
    rw [mimeOf_map isWhiteSpace_toUpper toUpper_semicolon,eqIgnoreAsciiCase_json]
    have letters : toAsciiLowercase (mimeOf contentType) ≠ "application/json" := by
      intro json
      rw [json] at suffix
      exact absurd suffix (by decide)
    rw [lower_upper,beq_false_of_ne letters,Bool.false_or]
    by_contra ends
    obtain ⟨rest,upper⟩ := List.isSuffixOf_iff_suffix.mp (Bool.not_eq_false _ ▸ ends)
    rw [String.toList_ofList (l := List.map _ _)] at upper
    -- The last letter of the suffix is in lower case, and no letter of the text is.
    have last := congrArg List.getLast? upper
    rw [List.getLast?_append,List.getLast?_map] at last
    cases found : (mimeOf contentType).toList.getLast? with
    | none => simp [found] at last
    | some c =>
      have raised : 'n' = c.toUpper := by simpa [found] using last
      have fixed : ∀ c : Char, 'n' ≠ c.toUpper := of_ascii (by decide) fun c large => by
        rw [toUpper_other c large]
        rintro rfl
        exact absurd large (by decide)
      exact fixed c raised

/-- Content types with one media type are answered alike. -/
theorem sameAnswers_of_mime (same : mimeOf other = mimeOf contentType) : SameAnswers contentType other := by
  refine ⟨?_,?_,?_⟩
  · simp only [looksJson,same]
  · simp only [dslWantsNonJson,same]
  · simp only [contentTypeIsJson,same]

/-- The three tests agree on a content type in every spelling exactly when its media type has no `+json`
suffix in any spelling. -/
theorem consistent_iff (contentType : String) : Consistent contentType ↔
    endsWith (toAsciiLowercase (mimeOf contentType)) "+json" = false := by
  constructor
  · intro consistent
    by_contra suffix
    obtain ⟨lower,upper⟩ := looksJson_suffix (Bool.not_eq_false _ ▸ suffix)
    have low := (consistent.anyCase (toAsciiLowercase contentType) (toAsciiLowercase_idem _)).inbound
    have high := (consistent.anyCase (String.ofList (contentType.toList.map Char.toUpper)) (lower_upper _)).inbound
    rw [← high,upper,lower] at low
    exact Bool.noConfusion low
  · intro plain
    refine ⟨dslWantsNonJson_eq contentType,?_,?_,?_⟩
    · rw [looksJson_plain plain,contentTypeIsJson_plain plain]
    · intro other same
      have mime := mimeOf_case same
      have alike : looksJson other = looksJson contentType := by
        rw [looksJson_plain plain,looksJson_plain (by rw [mime]; exact plain),mime]
      exact ⟨alike,by rw [dslWantsNonJson_eq,dslWantsNonJson_eq,alike],contentTypeIsJson_case mime⟩
    · intro gap params blank
      exact sameAnswers_of_mime (mimeOf_parameters contentType gap params blank)

/-- A problem document is JSON in one spelling and not in another, and a vendor's text is JSON for a
request but not for a response. -/
theorem suffix_not_consistent : ¬ Consistent "application/problem+JSON" ∧ ¬ Consistent "text/x+json" ∧
    looksJson "application/problem+JSON" = false ∧ contentTypeIsJson "application/problem+JSON" = true ∧
    looksJson "text/x+json" = true ∧ contentTypeIsJson "text/x+json" = false := by
  have inbound : looksJson "application/problem+JSON" = false := by decide
  have upstream : contentTypeIsJson "application/problem+JSON" = true := by decide
  have text : looksJson "text/x+json" = true := by decide
  have response : contentTypeIsJson "text/x+json" = false := by decide
  refine ⟨fun consistent => ?_,fun consistent => ?_,inbound,upstream,text,response⟩
  · have same := consistent.upstream
    rw [inbound,upstream] at same
    cases same
  · have same := consistent.upstream
    rw [text,response] at same
    cases same

end MediaTypes
end Ruuter
