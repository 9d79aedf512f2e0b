import Ruuter.Context

/-! The literal fast path of `ScriptEngine::evaluate` (`src/scripting/mod.rs`, `src/scripting/boa.rs`):
the test that skips the engine beside the scanner and the pattern that would look for scripts. -/
namespace Ruuter

/-- A match of `LINE_PATTERN`: `captures[0]` and `captures[1]`. -/
structure LineMatch where
  whole : List Char
  body : String
deriving DecidableEq

/-- `\$=(.+)=$` at one position: the `$` is the end of the text, so a match reaches to the end. -/
def lineAt (text : List Char) : Option LineMatch :=
  (lineBody (String.ofList text)).map fun body => { whole := text, body }

/-- `LINE_PATTERN.captures`: the leftmost match. -/
def lineCaptures (s : String) : Option LineMatch := s.toList.tails.findSome? lineAt

theorem lineAt_whole (found : lineAt text = some m) : m.whole = text := by
  obtain ⟨_,_,rfl⟩ := Option.map_eq_some_iff.mp found
  rfl

/-- The pattern matches the whole text when it matches at the first position. -/
theorem lineCaptures_whole_iff {m : LineMatch} :
    lineCaptures s = some m ∧ m.whole = s.toList ↔ lineAt s.toList = some m := by
  unfold lineCaptures
  cases text : s.toList with
  | nil =>
    have empty : lineAt [] = none := by decide
    simp [empty]
  | cons c rest =>
    rw [List.tails_cons,List.findSome?_cons]
    cases first : lineAt (c :: rest) with
    | some other =>
      dsimp only
      constructor
      · exact And.left
      · rintro ⟨⟩
        exact ⟨rfl,lineAt_whole first⟩
    | none =>
      dsimp only
      refine iff_of_false ?_ (by simp)
      rintro ⟨later,whole⟩
      obtain ⟨tail,member,found⟩ := List.exists_of_findSome?_eq_some later
      have shorter := ((List.mem_tails _ _).mp member).length_le
      rw [← lineAt_whole found,whole] at shorter
      exact absurd shorter (Nat.not_succ_le_self _)

theorem lineBody_eq (s : String) : lineBody s = (lineAt s.toList).map (·.body) := by
  unfold lineAt
  rw [String.ofList_toList,Option.map_map]
  exact Option.map_id'.symm

/-- The line that `evaluate_string` runs: a match of the pattern that is the whole string. -/
theorem lineBody_captures (s : String) : lineBody s =
    ((lineCaptures s).filter fun m => m.whole = s.toList).map (·.body) := by
  rw [lineBody_eq]
  congr 1
  apply Option.ext
  intro m
  rw [← lineCaptures_whole_iff,Option.filter_eq_some_iff,decide_eq_true_eq]

/-- The pre-check as `string_has_expressions` makes it. -/
theorem stringHasExpressions_eq (s : String) : stringHasExpressions s =
    (Text.contains s "$\x7b" ||
      (Text.startsWith s "$=" && ((lineCaptures s).map fun m => decide (m.whole = s.toList)).getD false)) := by
  have starts (m : LineMatch) (found : lineAt s.toList = some m) : Text.startsWith s "$=" = true := by
    obtain ⟨body,line,_⟩ := Option.map_eq_some_iff.mp found
    unfold lineBody at line
    split at line
    · rename_i rest chars
      rw [String.toList_ofList] at chars
      exact Text.startsWith_iff.mpr ⟨String.ofList rest,by rw [← String.toList_inj,chars]; simp⟩
    · cases line
  have line : (lineBody s).isSome =
      (Text.startsWith s "$=" && ((lineCaptures s).map fun m => decide (m.whole = s.toList)).getD false) := by
    rw [Bool.eq_iff_iff,lineBody_eq,Option.isSome_map,Option.isSome_iff_exists,Bool.and_eq_true]
    constructor
    · rintro ⟨m,found⟩
      obtain ⟨captured,whole⟩ := lineCaptures_whole_iff.mpr found
      exact ⟨starts m found,by rw [captured]; simpa using whole⟩
    · rintro ⟨_,matched⟩
      cases captured : lineCaptures s with
      | none => simp [captured] at matched
      | some m =>
        rw [captured] at matched
        exact ⟨m,lineCaptures_whole_iff.mp ⟨captured,by simpa using matched⟩⟩
  unfold stringHasExpressions
  rw [line]

/-- The scanner finds segments only behind a `${`. -/
theorem segmentsFrom_plain (plain : ¬ ['$','\x7b'] <:+: text) (fuel offset : Nat) :
    segmentsFrom fuel offset text = [] := by
  induction fuel generalizing text offset with
  | zero => rfl
  | succ fuel ih =>
    cases text with
    | nil => rfl
    | cons c rest =>
      have later : ¬ ['$','\x7b'] <:+: rest := fun inside => plain (inside.trans (List.suffix_cons c rest).isInfix)
      unfold segmentsFrom
      split
      · cases ‹_›
      · rename_i behind _ chars
        rw [chars] at plain
        exact absurd (List.prefix_append ['$','\x7b'] behind).isInfix plain
      · rename_i fuels chars
        cases fuels
        cases chars
        exact ih later _
      · rfl

theorem findScriptSegments_plain (plain : Text.contains s "$\x7b" = false) : findScriptSegments s = [] := by
  apply segmentsFrom_plain
  intro inside
  have found : Text.contains s "$\x7b" = true := Text.contains_iff.mpr inside
  rw [found] at plain
  cases plain

section FastPath
variable (h : Host) (ctx : Ctx)

/-- A string without expressions runs nothing and is copied. -/
theorem evaluateString_literal (plain : stringHasExpressions text = false) (s : St) :
    evaluateString h ctx text s = (.ok (.string text),s) := by
  unfold stringHasExpressions at plain
  rw [Bool.or_eq_false_iff] at plain
  have segments := findScriptSegments_plain plain.1
  have whole : wholeExpression text = none := by
    unfold wholeExpression
    rw [segments]
    exact Option.isSome_eq_false_iff.mp plain.2 |> Option.isNone_iff_eq_none.mp
  unfold evaluateString
  rw [whole,segments]
  unfold interpolate
  rw [Text.slice_whole,String.empty_append]
  rfl

mutual

theorem literal_value : (value : Json) → hasExpressions value = false → ∀ s,
    evaluateWith h ctx value s = (.ok value,s)
  | .string _, plain, s => evaluateString_literal h ctx plain s
  | .array items, plain, s => Eff.bind_eq_ok (literal_items items plain s)
  | .object members, plain, s => Eff.bind_eq_ok (literal_members members plain s)
  | .null, _, _ => rfl
  | .bool _, _, _ => rfl
  | .number _, _, _ => rfl

theorem literal_items : (items : List Json) → hasExpressionsList items = false → ∀ s,
    evaluateItems h ctx items s = (.ok items,s)
  | [], _, _ => rfl
  | item :: rest, plain, s => by
    obtain ⟨first,later⟩ := Bool.or_eq_false_iff.mp plain
    refine (Eff.bind_eq_ok (literal_value item first s)).trans ?_
    exact Eff.bind_eq_ok (literal_items rest later s)

theorem literal_members : (members : List (String × Json)) → hasExpressionsMembers members = false → ∀ s,
    evaluateMembers h ctx members s = (.ok members,s)
  | [], _, _ => rfl
  | (_,value) :: rest, plain, s => by
    obtain ⟨first,later⟩ := Bool.or_eq_false_iff.mp plain
    refine (Eff.bind_eq_ok (literal_value value first s)).trans ?_
    exact Eff.bind_eq_ok (literal_members rest later s)

end

/-- A value for which the pre-check is false runs no script on the slow path and comes back as it is:
no event is recorded, the host is not asked, and the variables stay. -/
theorem literal_fast_path (value : Json) (literal : hasExpressions value = false) (s : St) :
    evaluateWith h ctx value s = (.ok value,s) := literal_value h ctx value literal s

/-- Braces without a dollar, and a line that has no end. -/
theorem price_fast_path :
    hasExpressions (.object [("note",.string "$5 \x7b\x7d"),("rows",.array [.string "$=x"])]) = false ∧
    evaluateWith {} {} (.object [("note",.string "$5 \x7b\x7d"),("rows",.array [.string "$=x"])]) {} =
      (.ok (.object [("note",.string "$5 \x7b\x7d"),("rows",.array [.string "$=x"])]),{}) := by
  have literal : hasExpressions (.object [("note",.string "$5 \x7b\x7d"),("rows",.array [.string "$=x"])]) = false := by
    decide
  exact ⟨literal,literal_fast_path {} {} _ literal {}⟩

end FastPath
end Ruuter
