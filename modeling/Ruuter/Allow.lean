import Ruuter.Internal
import Mathlib.Data.String.Basic

/-! The answer to a method that a path has no DSL for: whether the `Allow` list names the
methods that are dispatched, and whether a path without any is answered like an absent one. -/
namespace Ruuter

/-- A method as HTTP registers them: a token in upper case. -/
def IsHttpMethod (r : Router) (method : String) : Prop :=
  (headerName method).isSome ∧ r.uppercase method = method

/-- A request for the path with the method is dispatched to a DSL: the method is on the
allow-list, a DSL resolves, and the internal gate, which stands behind the proxy branch,
lets it through. -/
def Dispatched (r : Router) (tree : Tree) (project path method : String) : Prop :=
  IsHttpMethod r method ∧ anyIgnoreCase r.allowedMethodTypes method = true ∧
    ∃ dsl key params,
      resolveDslWithPathParams tree.dsls project (r.uppercase method) path = some (dsl,key,params) ∧
      ((dsl.declaration.bind (·.proxy)).isSome ∨ dsl.effectiveInternal r.defaultInternal = false)

/-- A 405 lists exactly the dispatched methods, sorted, in its header and its body; where
there is none the answer is a 404. -/
def TellsTruth (r : Router) (tree : Tree) (project path : String) (response : Response) : Prop :=
  (response.status = 405 → ∃ methods : List String,
    methods.Pairwise (· < ·) ∧ (∀ method, method ∈ methods ↔ Dispatched r tree project path method) ∧
    response.headers.lookup "allow" = some (", ".intercalate methods) ∧
    response.body = .json (.object
      [("allow",.array (methods.map Json.string)),("error",.string "Method Not Allowed")])) ∧
  ((∀ method, ¬ Dispatched r tree project path method) → response.status = 404)

section
variable {r : Router} {run : Runner} {tree : Tree} {req : Request} {dsl : Dsl}

theorem mem_methodsAllowedForPath : method ∈ methodsAllowedForPath tree project path ↔
    (resolveDslWithPathParams tree.dsls project method path).isSome := by
  unfold methodsAllowedForPath
  cases found : tree.dsls.lookup project with
  | none => simp [resolveDslWithPathParams,found]
  | some byMethod =>
    simp only [List.mem_insertionSort,List.mem_filter,and_iff_right_iff_imp]
    intro resolves
    rw [AList.mem_keys.symm]
    apply AList.lookup_isSome.mp
    cases bucket : byMethod.lookup method with
    | none => simp [resolveDslWithPathParams,found,bucket] at resolves
    | some held => rfl

theorem methodsAllowedForPath_sorted : (methodsAllowedForPath tree project path).Pairwise (· < ·) := by
  unfold methodsAllowedForPath
  split
  · exact .nil
  · rename_i byMethod _
    have nodup : ((byMethod.keys.filter fun method =>
        (resolveDslWithPathParams tree.dsls project method path).isSome).insertionSort (· ≤ ·)).Nodup :=
      (List.perm_insertionSort _ _).nodup_iff.mpr (byMethod.keys_nodup.filter _)
    exact (List.sortedLE_insertionSort.sortedLT_of_nodup nodup).pairwise

theorem separator_chars : ", ".toList.all (fun c => (' ' ≤ c && c ≠ '\x7f') || c = '\t') = true := by
  decide

theorem mark_chars :
    "!#$%&'*+-.^_\x60|~".toList.all (fun c => (' ' ≤ c && c ≠ '\x7f') || c = '\t') = true := by
  decide

theorem headerName_chars (token : (headerName name).isSome) :
    ∀ c ∈ name.toList, ((' ' ≤ c && c ≠ '\x7f') || c = '\t') = true := by
  intro c member
  unfold headerName at token
  split at token
  · rename_i chars
    have allowed := List.all_eq_true.mp chars.2 c member
    rcases Bool.or_eq_true _ _ ▸ allowed with word | mark
    · have letters : c.isAlphanum = (c.isUpper || c.isLower || c.isDigit) := rfl
      have upper : c.isUpper = decide ('A'.val ≤ c.val ∧ c.val ≤ 'Z'.val) := rfl
      have lower : c.isLower = (decide ('a'.val ≤ c.val) && decide (c.val ≤ 'z'.val)) := rfl
      have digit : c.isDigit = (decide ('0'.val ≤ c.val) && decide (c.val ≤ '9'.val)) := rfl
      simp only [letters,upper,lower,digit,Bool.or_eq_true,Bool.and_eq_true,decide_eq_true_eq,
        UInt32.le_iff_toNat_le] at word
      have bounds : 48 ≤ c.toNat ∧ c.toNat ≤ 122 := by
        change ((65 ≤ c.toNat ∧ c.toNat ≤ 90) ∨ (97 ≤ c.toNat ∧ c.toNat ≤ 122)) ∨
          (48 ≤ c.toNat ∧ c.toNat ≤ 57) at word
        omega
      have low : ' ' ≤ c := UInt32.le_iff_toNat_le.mpr (show 32 ≤ c.toNat by omega)
      have last : c ≠ '\x7f' := by
        rintro rfl
        exact absurd bounds.2 (by decide)
      simp [low,last]
    · exact List.all_eq_true.mp mark_chars c (by simpa using mark)
  · cases token

/-- Tokens joined by a comma are a valid header value. -/
theorem headerValue_intercalate {methods : List String}
    (tokens : ∀ method ∈ methods, (headerName method).isSome) :
    headerValue (", ".intercalate methods) = some (", ".intercalate methods) := by
  have valid : ∀ c ∈ (", ".intercalate methods).toList, ((' ' ≤ c && c ≠ '\x7f') || c = '\t') = true := by
    induction methods with
    | nil => simp
    | cons first rest ih =>
      have head := headerName_chars (tokens first List.mem_cons_self)
      have tail := ih fun method member => tokens method (List.mem_cons_of_mem _ member)
      cases rest with
      | nil => simpa using head
      | cons second later =>
        rw [String.intercalate_cons_cons,String.toList_append,String.toList_append]
        intro c member
        rcases List.mem_append.mp member with before | after
        · rcases List.mem_append.mp before with own | separator
          · exact head c own
          · exact List.all_eq_true.mp separator_chars c separator
        · exact tail c after
  unfold headerValue
  rw [if_pos (List.all_eq_true.mpr valid)]

/-- The answer where no DSL resolves for the method. -/
theorem handle_absent (run : Runner) (front : frontChecks r req = .route)
    (split : pathSegments req.path = project :: segments)
    (absent : resolveDslWithPathParams tree.dsls project (r.uppercase req.method)
      ("/".intercalate segments) = none)
    (read : readBody r req = .ok body) (s : St) :
    ∃ traceparent t, handleRequestInner r run tree req s = (.ok (applyDefaultResponseHeaders r
      (echoTrace traceparent (notFoundResponse tree project ("/".intercalate segments)))),t) := by
  obtain ⟨traceparent,t,_,answered⟩ := dslRoute_outcome read (executeDsl_absent absent s)
  rw [← handle_unresolved front split absent] at answered
  exact ⟨traceparent,t,answered⟩

/-- A method in upper case that is dispatched is among those the path resolves for. -/
theorem Dispatched.allowed (dispatched : Dispatched r tree project path method) :
    method ∈ methodsAllowedForPath tree project path := by
  obtain ⟨⟨_,upper⟩,_,dsl,key,params,resolved,_⟩ := dispatched
  rw [upper] at resolved
  rw [mem_methodsAllowedForPath,resolved]
  rfl

theorem notFoundResponse_empty (empty : methodsAllowedForPath tree project path = []) :
    (notFoundResponse tree project path).status = 404 := by
  unfold notFoundResponse
  rw [empty]
  rfl

theorem notFoundResponse_listed (listed : methodsAllowedForPath tree project path ≠ []) :
    notFoundResponse tree project path =
      (jsonResponse 405 (.object
        [("allow",.array ((methodsAllowedForPath tree project path).map Json.string))
        ,("error",.string "Method Not Allowed")])).insertHeader
          "Allow" (", ".intercalate (methodsAllowedForPath tree project path)) := by
  unfold notFoundResponse
  rw [if_neg (by simpa using listed)]

/-- The answer tells the truth exactly when every method the path resolves for is dispatched. -/
theorem tellsTruth_notFound (traceparent : String) :
    TellsTruth r tree project path
      (applyDefaultResponseHeaders r (echoTrace traceparent (notFoundResponse tree project path))) ↔
    ∀ method ∈ methodsAllowedForPath tree project path, Dispatched r tree project path method := by
  by_cases listed : methodsAllowedForPath tree project path = []
  · have status := notFoundResponse_empty listed
    refine iff_of_true ⟨?_,?_⟩ (by simp [listed])
    · intro refused
      rw [applyDefaultResponseHeaders_status,echoTrace_status,status] at refused
      exact absurd refused (by decide)
    · intro _
      rw [applyDefaultResponseHeaders_status,echoTrace_status,status]
  · have answer := notFoundResponse_listed listed
    have status : (notFoundResponse tree project path).status = 405 := by
      rw [answer,insertHeader_status]
      rfl
    constructor
    · rintro ⟨lists,_⟩ method member
      obtain ⟨methods,_,members,_,body⟩ := lists (by simp [status])
      rw [applyDefaultResponseHeaders_body,echoTrace_body,answer,insertHeader_body] at body
      have same : methods = methodsAllowedForPath tree project path := by
        simp only [jsonResponse,Body.json.injEq,Json.object.injEq,List.cons.injEq,Prod.mk.injEq,
          Json.array.injEq,true_and,and_true] at body
        exact (List.map_injective_iff.mpr (fun _ _ equal => Json.string.inj equal) body).symm
      rw [← members,same]
      exact member
    · intro dispatched
      refine ⟨fun _ => ⟨methodsAllowedForPath tree project path,methodsAllowedForPath_sorted,?_,?_,?_⟩,?_⟩
      · exact fun method => ⟨dispatched method,Dispatched.allowed⟩
      · apply applyDefaultResponseHeaders_lookup
        rw [echoTrace_lookup_ne (by decide) (by decide),answer]
        exact insertHeader_lookup (by decide)
          (headerValue_intercalate fun method member => (dispatched method member).1.1)
      · rw [applyDefaultResponseHeaders_body,echoTrace_body,answer,insertHeader_body]
        rfl
      · intro none
        obtain ⟨method,member⟩ := List.exists_mem_of_ne_nil _ listed
        exact absurd (dispatched method member) (none method)

/-- A request whose method has no DSL at its path is told the truth exactly when every bucket
with a DSL for the path is named by an HTTP method on the allow-list and its DSL is not
internal. -/
theorem allow_truthful_iff (r : Router) (run : Runner) (tree : Tree) (req : Request) (s : St)
    (project : String) (segments : List String) (body : StringMap Json)
    (front : frontChecks r req = .route) (split : pathSegments req.path = project :: segments)
    (absent : resolveDslWithPathParams tree.dsls project (r.uppercase req.method)
      ("/".intercalate segments) = none)
    (read : readBody r req = .ok body) :
    ∃ response t, handleRequestInner r run tree req s = (.ok response,t) ∧
      (TellsTruth r tree project ("/".intercalate segments) response ↔
        ∀ bucket dsl key params,
          resolveDslWithPathParams tree.dsls project bucket ("/".intercalate segments) =
            some (dsl,key,params) →
          IsHttpMethod r bucket ∧ anyIgnoreCase r.allowedMethodTypes bucket = true ∧
            ((dsl.declaration.bind (·.proxy)).isSome ∨ dsl.effectiveInternal r.defaultInternal = false)) := by
  obtain ⟨traceparent,t,answered⟩ := handle_absent run front split absent read s
  refine ⟨_,t,answered,(tellsTruth_notFound traceparent).trans ⟨?_,?_⟩⟩
  · intro dispatched bucket dsl key params resolved
    have member : bucket ∈ methodsAllowedForPath tree project ("/".intercalate segments) := by
      rw [mem_methodsAllowedForPath,resolved]
      rfl
    obtain ⟨method,listed,found,foundKey,foundParams,resolves,through⟩ := dispatched bucket member
    rw [method.2,resolved] at resolves
    cases resolves
    exact ⟨method,listed,through⟩
  · intro every method member
    obtain ⟨⟨dsl,key,params⟩,resolved⟩ := Option.isSome_iff_exists.mp (mem_methodsAllowedForPath.mp member)
    obtain ⟨named,listed,through⟩ := every method dsl key params resolved
    exact ⟨named,listed,dsl,key,params,by rw [named.2]; exact resolved,through⟩

end

/-- A public route for `POST`. -/
def publicTree : Tree where
  dsls := (∅ : HttpDsls).insert "app" ((∅ : StringMap (StringMap Dsl)).insert "POST"
    ((∅ : StringMap Dsl).insert "POST/jobs" { steps := ∅ }))

theorem publicTree_truthful : ∃ response t,
    handleRequestInner {} (engine {} 1).run publicTree jobsRequest {} = (.ok response,t) ∧
      TellsTruth {} publicTree "app" "jobs" response := by
  obtain ⟨response,t,answered,truthful⟩ := allow_truthful_iff {} (engine {} 1).run publicTree jobsRequest {}
    "app" ["jobs"] ∅ rfl rfl rfl rfl
  refine ⟨response,t,answered,truthful.mpr ?_⟩
  intro bucket dsl key params resolved
  have bucketPost : bucket = "POST" := by
    have member : bucket ∈ methodsAllowedForPath publicTree "app" ("/".intercalate ["jobs"]) := by
      rw [mem_methodsAllowedForPath,resolved]
      rfl
    exact List.mem_singleton.mp member
  subst bucketPost
  cases resolved
  exact ⟨⟨by decide,by decide⟩,by decide,.inr rfl⟩

/-- A path with an internal DSL only is answered with a 405 that gives the method away. -/
theorem internal_route_revealed : ∃ response t,
    handleRequestInner {} (engine {} 1).run internalTree { jobsRequest with method := "POST" } {} =
      (.ok response,t) ∧
    response.status = 405 ∧ response.headers.lookup "allow" = some "GET" ∧
    ¬ TellsTruth {} internalTree "app" "jobs" response := by
  refine ⟨_,_,rfl,rfl,rfl,?_⟩
  rintro ⟨_,absent⟩
  have hidden : ∀ method, ¬ Dispatched {} internalTree "app" "jobs" method := by
    intro method dispatched
    have get : method = "GET" := List.mem_singleton.mp dispatched.allowed
    subst get
    obtain ⟨_,_,dsl,key,params,resolved,through⟩ := dispatched
    cases resolved
    rcases through with proxied | external
    · cases proxied
    · cases external
  have differ : (405 : UInt16) ≠ 404 := by decide
  exact differ (absent hidden)

end Ruuter
