import Ruuter.GuardAudit

/-! Route resolution (`DslRouter::resolve_dsl_with_path_params`): the longest key below the
method that is a segment prefix of the requested path. -/
namespace Ruuter

/-- The non-empty segments of a request path. -/
def pathSegments (path : String) : List String :=
  (Text.split path '/').filter fun segment => !segment.isEmpty

def routeKey (method : String) (segments : List String) : String :=
  method ++ "/" ++ "/".intercalate segments

/-- The lookup loop, over the segments in reverse: the head is the one stripped next. -/
def resolveSegments (byMethod : StringMap Dsl) (method : String) :
    (reversed stripped : List String) → Option (Dsl × String × List String)
  | [], _ => none
  | last :: before, stripped =>
    let candidate := routeKey method (last :: before).reverse
    match byMethod.lookup candidate with
    | some dsl => some (dsl,candidate,stripped)
    | none => resolveSegments byMethod method before (last :: stripped)

/-- The matched DSL, its key and the stripped segments in URL order. -/
def resolveDslWithPathParams (dsls : HttpDsls) (project method path : String) :
    Option (Dsl × String × List String) :=
  match (dsls.lookup project).bind (·.lookup method) with
  | none => none
  | some byMethod => resolveSegments byMethod method (pathSegments path).reverse []

/-- The keys the lookup loop tries, over the segments in reverse. -/
def candidates (method : String) : (reversed : List String) → List String
  | [] => []
  | last :: before => routeKey method (last :: before).reverse :: candidates method before

/-- The loop finds nothing when no key it tries is there. -/
theorem resolveSegments_eq_none
    (absent : ∀ key ∈ candidates method reversed, byMethod.lookup key = none) :
    resolveSegments byMethod method reversed stripped = none := by
  induction reversed generalizing stripped with
  | nil => rfl
  | cons last before ih =>
    simp only [candidates,List.mem_cons,forall_eq_or_imp] at absent
    simp only [resolveSegments,absent.1]
    exact ih absent.2

theorem mem_pathSegments {segment : String} (member : segment ∈ pathSegments path) :
    segment ≠ "" ∧ '/' ∉ segment.toList := by
  obtain ⟨found,nonempty⟩ := List.mem_filter.mp member
  exact ⟨by simpa using nonempty,Text.not_mem_of_mem_split found⟩

/-- Segments that are joined split into the same segments. -/
theorem pathSegments_intercalate
    (clean : ∀ segment ∈ segments, segment ≠ "" ∧ '/' ∉ segment.toList) :
    pathSegments ("/".intercalate segments) = segments := by
  unfold pathSegments
  cases segments with
  | nil => decide
  | cons first rest =>
    have joined : Text.split ("/".intercalate (first :: rest)) '/' = first :: rest :=
      Text.split_intercalate (fun piece member => (clean piece member).2) (by simp)
    rw [joined,List.filter_eq_self]
    intro piece member
    simpa using (clean piece member).1

end Ruuter
