import Mathlib.Logic.Relation
import Ruuter.Routing

/-! What a path resolves to: the longest prefix of its segments that is a key of the method, with
the other segments as path parameters (`resolve_dsl_with_path_params`). -/
namespace Ruuter

/-- The DSL at the first `length` segments of a path, which are the most that have a key. -/
structure LongestMatch (byMethod : StringMap Dsl) (method : String) (segments : List String) (length : Nat)
    (dsl : Dsl) : Prop where
  positive : 1 ≤ length
  inside : length ≤ segments.length
  held : byMethod.lookup (routeKey method (segments.take length)) = some dsl
  longest : ∀ other, length < other → other ≤ segments.length →
    routeKey method (segments.take other) ∉ byMethod

/-- Two spellings of a path that differ by one slash. -/
inductive SlashStep : String → String → Prop
  | doubled (before after : String) : SlashStep (before ++ "//" ++ after) (before ++ "/" ++ after)
  | leading (path : String) : SlashStep ("/" ++ path) path
  | trailing (path : String) : SlashStep (path ++ "/") path

section Segments

theorem pathSegments_slash (before after : String) :
    pathSegments (before ++ "/" ++ after) = pathSegments before ++ pathSegments after := by
  unfold pathSegments
  rw [← List.filter_append,← Text.split_append before after '/']
  rfl

theorem pathSegments_empty : pathSegments "" = [] := by decide

theorem SlashStep.segments {path other : String} (step : SlashStep path other) :
    pathSegments path = pathSegments other := by
  cases step with
  | doubled before after =>
    have inner : before ++ "//" ++ after = before ++ "/" ++ ("" ++ "/" ++ after) := by
      simp only [String.empty_append,String.append_assoc]
      rfl
    rw [inner,pathSegments_slash,pathSegments_slash,pathSegments_slash,pathSegments_empty]
    rfl
  | leading =>
    have outer : "/" ++ other = "" ++ "/" ++ other := by rw [String.empty_append]
    rw [outer,pathSegments_slash,pathSegments_empty]
    rfl
  | trailing =>
    have outer : other ++ "/" = other ++ "/" ++ "" := by rw [String.append_empty]
    rw [outer,pathSegments_slash,pathSegments_empty,List.append_nil]

/-- Paths that differ in slashes have the same segments. -/
theorem segments_eq {path other : String} (same : Relation.EqvGen SlashStep path other) :
    pathSegments path = pathSegments other := by
  induction same with
  | rel _ _ step => exact step.segments
  | refl _ => rfl
  | symm _ _ _ ih => exact ih.symm
  | trans _ _ _ _ _ first second => exact first.trans second

end Segments

section Loop
variable {byMethod : StringMap Dsl} {method : String}

/-- A longest match is the only one. -/
theorem LongestMatch.unique (one : LongestMatch byMethod method segments i first)
    (two : LongestMatch byMethod method segments j second) : i = j ∧ first = second := by
  have not_lt {i j : Nat} {first second : Dsl} (one : LongestMatch byMethod method segments i first)
      (two : LongestMatch byMethod method segments j second) : ¬ i < j := by
    intro shorter
    have absent := one.longest j shorter two.inside
    exact absent (AList.lookup_isSome.mp (by rw [two.held]; rfl))
  have same : i = j := by
    have := not_lt one two
    have := not_lt two one
    omega
  subst same
  exact ⟨rfl,Option.some.inj (one.held.symm.trans two.held)⟩

/-- The whole path, when it has a key. -/
theorem longest_whole (some : byMethod.lookup (routeKey method (before ++ [last])) = some dsl) :
    LongestMatch byMethod method (before ++ [last]) (before ++ [last]).length dsl := by
  refine ⟨?_,Nat.le_refl _,?_,?_⟩
  · rw [List.length_append]
    exact Nat.le_add_left 1 _
  · rwa [List.take_length]
  · intro other longer inside
    omega

/-- A match of a path whose last segment has to go. -/
theorem longest_strip (none : byMethod.lookup (routeKey method (before ++ [last])) = none) :
    LongestMatch byMethod method (before ++ [last]) i dsl ↔ LongestMatch byMethod method before i dsl := by
  have size : (before ++ [last]).length = before.length + 1 := by simp
  have absent : routeKey method (before ++ [last]) ∉ byMethod := AList.lookup_eq_none.mp none
  have whole : (before ++ [last]).take (before.length + 1) = before ++ [last] := by
    rw [← size,List.take_length]
  have shorter {j : Nat} (inside : j ≤ before.length) : (before ++ [last]).take j = before.take j :=
    List.take_append_of_le_length inside
  constructor
  · rintro ⟨positive,inside,held,longest⟩
    have within : i ≤ before.length := by
      by_contra beyond
      have full : i = before.length + 1 := by omega
      rw [full,whole,none] at held
      cases held
    rw [shorter within] at held
    refine ⟨positive,within,held,?_⟩
    intro other longer smaller
    rw [← shorter smaller]
    exact longest other longer (by omega)
  · rintro ⟨positive,inside,held,longest⟩
    refine ⟨positive,by omega,by rwa [shorter inside],?_⟩
    intro other longer within
    by_cases full : other = before.length + 1
    · rwa [full,whole]
    · have smaller : other ≤ before.length := by omega
      rw [shorter smaller]
      exact longest other longer smaller

theorem resolveSegments_cons : resolveSegments byMethod method (last :: before) stripped =
    match byMethod.lookup (routeKey method (before.reverse ++ [last])) with
    | some dsl => some (dsl,routeKey method (before.reverse ++ [last]),stripped)
    | none => resolveSegments byMethod method before (last :: stripped) := by
  rw [← List.reverse_cons]
  rfl

/-- The loop finds the longest match; what it has stripped stands behind the rest of the path. -/
theorem resolveSegments_iff : resolveSegments byMethod method reversed stripped = some (dsl,key,params) ↔
    ∃ i, LongestMatch byMethod method reversed.reverse i dsl ∧
      key = routeKey method (reversed.reverse.take i) ∧ params = reversed.reverse.drop i ++ stripped := by
  induction reversed generalizing stripped with
  | nil =>
    refine iff_of_false (by rintro ⟨⟩) ?_
    rintro ⟨i,⟨positive,inside,_⟩,_⟩
    rw [List.reverse_nil,List.length_nil] at inside
    omega
  | cons last before ih =>
    rw [resolveSegments_cons,List.reverse_cons]
    cases found : byMethod.lookup (routeKey method (before.reverse ++ [last])) with
    | some held =>
      have whole := longest_whole found
      simp only [Option.some.injEq,Prod.mk.injEq]
      constructor
      · rintro ⟨rfl,rfl,rfl⟩
        exact ⟨_,whole,by rw [List.take_length],by rw [List.drop_length,List.nil_append]⟩
      · rintro ⟨i,longest,rfl,rfl⟩
        obtain ⟨rfl,rfl⟩ := whole.unique longest
        rw [List.take_length,List.drop_length]
        exact ⟨rfl,rfl,rfl⟩
    | none =>
      simp only [ih,longest_strip found]
      constructor
      all_goals
        rintro ⟨i,longest,rfl,rfl⟩
        refine ⟨i,longest,?_,?_⟩
        · rw [List.take_append_of_le_length longest.inside]
        · rw [List.drop_append_of_le_length longest.inside,List.append_assoc]
          rfl

/-- A prefix with a key has a longest one. -/
theorem exists_longest {segments : List String} (positive : 1 ≤ i) (inside : i ≤ segments.length)
    (held : routeKey method (segments.take i) ∈ byMethod) :
    ∃ j dsl, i ≤ j ∧ LongestMatch byMethod method segments j dsl := by
  obtain ⟨room,within⟩ : ∃ room, segments.length = i + room := ⟨_,(Nat.add_sub_cancel' inside).symm⟩
  induction room using Nat.strong_induction_on generalizing i with
  | _ room ih =>
    by_cases longer : ∃ j, i < j ∧ j ≤ segments.length ∧ routeKey method (segments.take j) ∈ byMethod
    · obtain ⟨j,beyond,bound,here⟩ := longer
      obtain ⟨k,dsl,later,longest⟩ := ih (segments.length - j) (by omega) (by omega) bound here (by omega)
      exact ⟨k,dsl,by omega,longest⟩
    · obtain ⟨dsl,found⟩ := Option.isSome_iff_exists.mp (AList.lookup_isSome.mpr held)
      refine ⟨i,dsl,Nat.le_refl i,positive,inside,found,?_⟩
      intro other beyond bound here
      exact longer ⟨other,beyond,bound,here⟩

end Loop

section Resolution
variable (dsls : HttpDsls) (project method : String)

/-- The bucket of a method, empty when there is none. -/
def bucket : StringMap Dsl := ((dsls.lookup project).bind (·.lookup method)).getD ∅

theorem resolveSegments_empty : resolveSegments ∅ method reversed stripped = none := by
  apply resolveSegments_eq_none
  intro key _
  exact AList.lookup_empty key

theorem resolve_eq (path : String) : resolveDslWithPathParams dsls project method path =
    resolveSegments (bucket dsls project method) method (pathSegments path).reverse [] := by
  unfold resolveDslWithPathParams bucket
  cases (dsls.lookup project).bind (·.lookup method) with
  | none => exact (resolveSegments_empty method).symm
  | some byMethod => rfl

theorem resolve_iff : resolveDslWithPathParams dsls project method path = some (dsl,key,params) ↔
    ∃ i, LongestMatch (bucket dsls project method) method (pathSegments path) i dsl ∧
      key = routeKey method ((pathSegments path).take i) ∧ params = (pathSegments path).drop i := by
  rw [resolve_eq,resolveSegments_iff]
  simp only [List.reverse_reverse,List.append_nil]

theorem resolve_longest_prefix (path : String) :
    ((∃ result, resolveDslWithPathParams dsls project method path = some result) ↔
      ∃ i, 1 ≤ i ∧ i ≤ (pathSegments path).length ∧
        routeKey method ((pathSegments path).take i) ∈ bucket dsls project method) ∧
    (∀ dsl key params, resolveDslWithPathParams dsls project method path = some (dsl,key,params) ↔
      ∃ i, LongestMatch (bucket dsls project method) method (pathSegments path) i dsl ∧
        key = routeKey method ((pathSegments path).take i) ∧ params = (pathSegments path).drop i) ∧
    (∀ dsl key params, resolveDslWithPathParams dsls project method path = some (dsl,key,params) →
      ∃ matched, matched ≠ [] ∧ key = routeKey method matched ∧ matched ++ params = pathSegments path) ∧
    ∀ other, Relation.EqvGen SlashStep path other →
      resolveDslWithPathParams dsls project method path = resolveDslWithPathParams dsls project method other := by
  refine ⟨?_,fun _ _ _ => resolve_iff dsls project method,?_,?_⟩
  · constructor
    · rintro ⟨⟨dsl,key,params⟩,resolved⟩
      obtain ⟨i,longest,_⟩ := (resolve_iff dsls project method).mp resolved
      exact ⟨i,longest.positive,longest.inside,AList.lookup_isSome.mp (by rw [longest.held]; rfl)⟩
    · rintro ⟨i,positive,inside,held⟩
      obtain ⟨j,dsl,_,longest⟩ := exists_longest positive inside held
      exact ⟨_,(resolve_iff dsls project method).mpr ⟨j,longest,rfl,rfl⟩⟩
  · intro dsl key params resolved
    obtain ⟨i,longest,rfl,rfl⟩ := (resolve_iff dsls project method).mp resolved
    refine ⟨(pathSegments path).take i,?_,rfl,List.take_append_drop i _⟩
    intro none
    have size := congrArg List.length none
    rw [List.length_take_of_le longest.inside,List.length_nil] at size
    have := longest.positive
    omega
  · intro other same
    rw [resolve_eq,resolve_eq,segments_eq same]

end Resolution
end Ruuter
