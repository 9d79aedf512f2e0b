import Ruuter.Lib.FormUrlencoded
import Ruuter.Lib.Utf16
import Ruuter.Outbound

/-! The query of a request over a Unix socket (`merge_query_params` and `urlencoding_encode` of
`src/http_client/mod.rs`), as a form decoder reads it. -/
namespace Ruuter

/-- The characters that `urlencoding_encode` leaves as they are. -/
def Unreserved (c : Char) : Prop := c.isAlphanum = true ∨ c ∈ ['-','_','.','~']

/-- The query of a request target, without its `?`. -/
def targetQuery (target : String) : String :=
  String.ofList (((target.toList.takeWhile (· ≠ '#')).dropWhile (· ≠ '?')).tail)

/-- The entries of a map of query parameters. -/
def queryMembers (extra : Option (StringMap Json)) : List (String × Json) :=
  (extra.getD ∅).entries.map fun entry => (entry.1,entry.2)

section Escapes
open Form

theorem unreserved_ne (unreserved : Unreserved c) : c ∉ ['%','+','&','=','#'] := by
  rintro member
  have each : ∀ c ∈ ['%','+','&','=','#'], ¬ (c.isAlphanum = true ∨ c ∈ ['-','_','.','~']) :=
    Text.forall_mem_of_all (by decide)
  exact each c member unreserved

theorem percentDigit_reads (bound : n < 16) : (percentDigit n).toNat < 128 ∧
    hexValue (UInt8.ofNat (percentDigit n).toNat) = some (UInt8.ofNat n) ∧ (percentDigit n).isAlphanum = true := by
  have each : ∀ n < 16, (percentDigit n).toNat < 128 ∧
      hexValue (UInt8.ofNat (percentDigit n).toNat) = some (UInt8.ofNat n) ∧
        (percentDigit n).isAlphanum = true := by decide
  exact each n bound

theorem byte_bound (b : UInt8) : b.toNat < 256 := UInt8.toNat_lt_size b

theorem byte_of_digits (b : UInt8) : UInt8.ofNat (b.toNat / 16) * 16 + UInt8.ofNat (b.toNat % 16) = b := by
  have bound := byte_bound b
  apply UInt8.toNat_inj.mp
  simp only [UInt8.toNat_add,UInt8.toNat_mul,UInt8.toNat_ofNat']
  show (b.toNat / 16 % 256 * 16 % 256 + b.toNat % 16 % 256) % 256 = b.toNat
  omega

/-- A byte stands for itself in front of any escaped text. -/
theorem escaped_encodeByte (b : UInt8) (escaped : Escaped Unreserved text bytes) :
    Escaped Unreserved (encodeByte b ++ text) (b :: bytes) := by
  have bound := byte_bound b
  unfold encodeByte
  dsimp only
  split
  · rename_i plain
    have ascii : b.toNat < 128 := plain.1
    have code : (Char.ofNat b.toNat).toNat = b.toNat := Utf16.toNat_charOfNat (.inl (by omega))
    have byte : Escaped Unreserved (Char.ofNat b.toNat :: text) _ := .plain plain.2 (by omega) escaped
    rwa [code,UInt8.ofNat_toNat] at byte
  · obtain ⟨first,upper,_⟩ := percentDigit_reads (show b.toNat / 16 < 16 by omega)
    obtain ⟨second,lower,_⟩ := percentDigit_reads (show b.toNat % 16 < 16 by omega)
    have byte : Escaped Unreserved ('%' :: percentDigit (b.toNat / 16) :: percentDigit (b.toNat % 16) :: text) _ :=
      .escape first second upper lower escaped
    rwa [byte_of_digits] at byte

theorem escaped_urlencodingEncode (s : String) : Escaped Unreserved (urlencodingEncode s).toList (bytesOf s) := by
  have bytes : s.toUTF8.toList = bytesOf s := toList_eq s.toByteArray
  rw [urlencodingEncode,String.toList_ofList,bytes]
  induction bytesOf s with
  | nil => exact .nil
  | cons b rest ih =>
    rw [List.flatMap_cons]
    exact escaped_encodeByte b ih

theorem mem_encodeByte (member : c ∈ encodeByte b) : Unreserved c ∨ c = '%' := by
  have bound := byte_bound b
  unfold encodeByte at member
  dsimp only at member
  split at member
  · rename_i plain
    rw [List.mem_singleton.mp member]
    exact .inl plain.2
  · simp only [List.mem_cons,List.not_mem_nil,or_false] at member
    rcases member with rfl | rfl | rfl
    · exact .inr rfl
    · exact .inl (.inl (percentDigit_reads (by omega)).2.2)
    · exact .inl (.inl (percentDigit_reads (by omega)).2.2)

/-- None of the characters that a form decoder takes apart a query at. -/
theorem mem_urlencodingEncode (member : c ∈ (urlencodingEncode s).toList) : c ∉ ['&','=','+','#'] := by
  rw [urlencodingEncode,String.toList_ofList] at member
  obtain ⟨b,_,member⟩ := List.mem_flatMap.mp member
  rcases mem_encodeByte member with unreserved | rfl
  · have other := unreserved_ne unreserved
    simp only [List.mem_cons,not_or] at other ⊢
    exact ⟨other.2.2.1,other.2.2.2.1,other.2.1,other.2.2.2.2⟩
  · decide

theorem decodeText_urlencodingEncode (malformed : List UInt8 → String) (s : String) :
    decodeText malformed (urlencodingEncode s) = s := by
  have free : ∀ c, Unreserved c → c ≠ '%' ∧ c ≠ '+' := by
    intro c unreserved
    have other := unreserved_ne unreserved
    simp only [List.mem_cons,not_or] at other
    exact ⟨other.1,other.2.1⟩
  have read := decodeText_escaped malformed free (escaped_urlencodingEncode s)
  rwa [String.ofList_toList] at read

theorem urlencodingEncode_injective : Function.Injective urlencodingEncode := by
  intro s t same
  rw [← decodeText_urlencodingEncode (fun _ => "") s,same,decodeText_urlencodingEncode]

end Escapes

section RoundTrip
variable (h : Host) (malformed : List UInt8 → String)

/-- The text of one parameter. -/
def queryPiece (pair : String × String) : String := urlencodingEncode pair.1 ++ "=" ++ urlencodingEncode pair.2

theorem mem_queryPiece (member : c ∈ (queryPiece pair).toList) : c ≠ '&' ∧ c ≠ '#' := by
  simp only [queryPiece,String.toList_append,List.mem_append] at member
  rcases member with (member | member) | member
  · have other := mem_urlencodingEncode member
    simp only [List.mem_cons,not_or] at other
    exact ⟨other.1,other.2.2.2.1⟩
  · rw [List.mem_singleton.mp member]
    decide
  · have other := mem_urlencodingEncode member
    simp only [List.mem_cons,not_or] at other
    exact ⟨other.1,other.2.2.2.1⟩

theorem parse_queryPiece (pair : String × String) : Form.parse malformed (queryPiece pair) = [pair] := by
  have nonempty : queryPiece pair ≠ "" := by
    intro empty
    have size := congrArg String.length empty
    simp [queryPiece] at size
  have clean : '=' ∉ (urlencodingEncode pair.1).toList := fun member =>
    mem_urlencodingEncode member (by decide)
  rw [Form.parse_single malformed (fun member => (mem_queryPiece member).1 rfl) nonempty,queryPiece,
    Form.pairOf_append malformed clean,decodeText_urlencodingEncode,decodeText_urlencodingEncode]

theorem parse_queryPieces (pairs : List (String × String)) :
    Form.parse malformed ("&".intercalate (pairs.map queryPiece)) = pairs := by
  rw [Form.parse_intercalate,List.flatMap_map]
  simp only [parse_queryPiece]
  exact List.flatMap_singleton' pairs

/-- The target with the parameters behind it. -/
theorem mergeQueryParams_cons (base : String) (pair : String × String) (rest : List (String × String)) :
    mergeQueryParams base (pair :: rest) =
      base ++ (if base.toList.contains '?' then "&" else "?") ++ "&".intercalate ((pair :: rest).map queryPiece) := rfl

/-- What is appended holds no `#`. -/
theorem mem_queryPieces {pairs : List (String × String)}
    (member : c ∈ ("&".intercalate (pairs.map queryPiece)).toList) : c ≠ '#' := by
  induction pairs with
  | nil => cases member
  | cons pair rest ih =>
    by_cases last : rest.map queryPiece = []
    · rw [List.map_cons,last,String.intercalate_singleton] at member
      exact (mem_queryPiece member).2
    · rw [List.map_cons,String.intercalate_cons_of_ne_nil last] at member
      simp only [String.toList_append,List.mem_append] at member
      rcases member with (member | member) | member
      · exact (mem_queryPiece member).2
      · rw [List.mem_singleton.mp member]
        decide
      · exact ih member

theorem takeWhile_noFragment {target : String} (clean : '#' ∉ target.toList) :
    target.toList.takeWhile (· ≠ '#') = target.toList :=
  List.takeWhile_eq_self_iff.mpr fun _ member => decide_eq_true fun same => clean (same ▸ member)

/-- The query of a target that goes on behind its own query, or that gets one. -/
theorem targetQuery_append {base text : String} (clean : '#' ∉ base.toList) (more : '#' ∉ text.toList) :
    targetQuery (base ++ (if base.toList.contains '?' then "&" else "?") ++ text) =
      if base.toList.contains '?' then targetQuery base ++ "&" ++ text else text := by
  have whole : '#' ∉ (base ++ (if base.toList.contains '?' then "&" else "?") ++ text).toList := by
    intro member
    simp only [String.toList_append,List.mem_append] at member
    rcases member with (member | member) | member
    · exact clean member
    · split at member
      · exact absurd member (by decide)
      · exact absurd member (by decide)
    · exact more member
  unfold targetQuery
  rw [takeWhile_noFragment whole,takeWhile_noFragment clean]
  apply String.toList_injective
  split
  · rename_i asked
    have held : '?' ∈ base.toList := List.contains_iff_mem.mp asked
    obtain ⟨c,rest,cut⟩ : ∃ c rest, base.toList.dropWhile (· ≠ '?') = c :: rest := by
      cases cut : base.toList.dropWhile (· ≠ '?') with
      | nil =>
        have none := List.dropWhile_eq_nil_iff.mp cut '?' held
        simp at none
      | cons c rest => exact ⟨c,rest,rfl⟩
    simp only [String.toList_append,String.toList_ofList,List.append_assoc,List.dropWhile_append,cut,List.isEmpty_cons,
      Bool.false_eq_true,if_false,List.cons_append,List.tail_cons]
  · rename_i plain
    have absent : ∀ c ∈ base.toList, decide (c ≠ '?') = true := by
      intro c member
      exact decide_eq_true fun same => plain (List.contains_iff_mem.mpr (same ▸ member))
    rw [String.toList_append,String.toList_append,List.append_assoc,List.dropWhile_append_of_pos absent,
      String.toList_ofList]
    rfl

/-- The form decoder reads the own pairs of the target and behind them one pair for each entry of the map,
in the order in which the map is gone through. -/
theorem parse_mergeQueryParams {base : String} (clean : '#' ∉ base.toList) (pairs : List (String × String)) :
    Form.parse malformed (targetQuery (mergeQueryParams base pairs)) =
      Form.parse malformed (targetQuery base) ++ pairs := by
  cases pairs with
  | nil => exact (List.append_nil _).symm
  | cons pair rest =>
    have more : '#' ∉ ("&".intercalate ((pair :: rest).map queryPiece)).toList := fun member => mem_queryPieces member rfl
    rw [mergeQueryParams_cons,targetQuery_append clean more]
    split
    · rw [Form.parse_append,parse_queryPieces]
    · rename_i plain
      have none : targetQuery base = "" := by
        unfold targetQuery
        rw [takeWhile_noFragment clean]
        have absent : base.toList.dropWhile (· ≠ '?') = [] := List.dropWhile_eq_nil_iff.mpr fun c member =>
          decide_eq_true fun same => plain (List.contains_iff_mem.mpr (same ▸ member))
        rw [absent]
        rfl
      rw [parse_queryPieces,none]
      rfl

/-- Whatever order the map is gone through in, a form decoder gets its entries back behind the own pairs of
the base; the encoder is injective, and writes each byte as itself or as an escape. -/
theorem query_round_trip {base : String} (clean : '#' ∉ base.toList)
    (extra : Option (StringMap Json)) (order : List (String × Json))
    (any : order.Perm (queryMembers extra)) :
    (∃ added, Form.parse malformed (targetQuery (mergeQueryParams base (order.map (formField h)))) =
        Form.parse malformed (targetQuery base) ++ added ∧
      added.Perm (queryTexts h extra)) ∧
    Function.Injective urlencodingEncode ∧
    ∀ s, Form.Escaped Unreserved (urlencodingEncode s).toList (Form.bytesOf s) ∧
      ∀ c ∈ (urlencodingEncode s).toList, c ∉ ['&','=','+','#'] := by
  have texts : (queryMembers extra).map (formField h) = queryTexts h extra := List.map_map
  have listed : (order.map (formField h)).Perm (queryTexts h extra) := texts ▸ any.map (formField h)
  refine ⟨⟨order.map (formField h),parse_mergeQueryParams malformed clean _,listed⟩,urlencodingEncode_injective,
    fun s => ⟨escaped_urlencodingEncode s,fun c member => mem_urlencodingEncode member⟩⟩

theorem query_round_trip_with_own :
    ∃ added, Form.parse (fun _ => "") (targetQuery (mergeQueryParams "/api?x=%2B1" [("k&y","a=b c")])) =
        Form.parse (fun _ => "") (targetQuery "/api?x=%2B1") ++ added ∧ added.Perm [("k&y","a=b c")] := by
  have clean : '#' ∉ "/api?x=%2B1".toList := by decide
  have any : [("k&y",Json.string "a=b c")].Perm (queryMembers (some (AList.singleton "k&y" (.string "a=b c")))) :=
    List.Perm.refl _
  exact (query_round_trip {} (fun _ => "") clean _ _ any).1

end RoundTrip

end Ruuter
