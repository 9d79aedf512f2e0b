import Ruuter.Denial

/-! The headers of the framework: which requests are answered with the trace of the request and
with the configured default headers. -/
namespace Ruuter

/-- A configured default header with a valid name and value. -/
def DefaultHeader (r : Router) (name value : String) : Prop :=
  ∃ entry ∈ r.responseDefaultHeaders.entries,
    headerName entry.1 = some name ∧ headerValue entry.2 = some value

/-- The router without default headers. -/
def Router.bare (r : Router) : Router := { r with responseDefaultHeaders := ∅ }

/-- The traceparent of the request, its trace id or none, and every default header that the
answer does not carry without the defaults. -/
structure Framed (r : Router) (traceparent : String) (bare response : Response) : Prop where
  traced : response.headers.lookup "traceparent" = some traceparent
  traceId : response.headers.lookup "x-trace-id" = traceIdFrom traceparent
  defaults : ∀ name value, DefaultHeader r name value → name ∈ bare.headers ∨
    ∃ given, DefaultHeader r name given ∧ response.headers.lookup name = some given

/-- The state in which the guards of a request start. -/
def St.entered (s : St) : St := { s with vars := ∅, guardStack := [] }

section Defaults
variable {r : Router}

end Defaults

section Assembly
variable {r : Router} {run : Runner} {tree : Tree} {req : Request} {dsl : Dsl} {answer : Response}

theorem headerValue_traceId (valid : headerValue traceparent = some traceparent)
    (given : traceIdFrom traceparent = some traceId) : headerValue traceId = some traceId := by
  have piece : traceId ∈ Text.split traceparent '-' := by
    unfold traceIdFrom at given
    split at given
    · rename_i parts
      split at given
      · cases given
        rw [parts]
        simp
      · cases given
    · cases given
  unfold headerValue at valid ⊢
  split at valid
  · rename_i chars
    refine if_pos (List.all_eq_true.mpr fun c member => ?_)
    exact List.all_eq_true.mp chars c (Text.mem_of_mem_split piece member)
  · cases valid

theorem echoTrace_traceId (valid : headerValue traceparent = some traceparent)
    (given : traceIdFrom traceparent = some traceId) :
    (echoTrace traceparent answer).headers.lookup "x-trace-id" = some traceId := by
  simp only [echoTrace,given]
  exact insertHeader_lookup (by decide) (headerValue_traceId valid given)

/-- A header that is not valid, or has another name, changes nothing. -/
theorem insertHeader_skips {response : Response}
    (skipped : ¬ (headerName name = some key ∧ (headerValue value).isSome = true)) :
    (response.insertHeader name value).headers.lookup key = response.headers.lookup key := by
  unfold Response.insertHeader
  split
  · rename_i lower kept named valid
    refine AList.lookup_insert_ne ?_
    rintro rfl
    exact skipped ⟨named,by rw [valid]; rfl⟩
  · rfl

theorem headerValue_eq (valid : headerValue value = some kept) : kept = value := by
  unfold headerValue at valid
  split at valid
  · exact (Option.some.inj valid).symm
  · cases valid

/-- Of the headers a DSL sets under one name the last valid one is kept. -/
theorem insertHeaders_lookup {response : Response} (extra : StringMap String) (key : String) :
    (response.insertHeaders extra).headers.lookup key =
      ((extra.entries.reverse.find? fun entry =>
        headerName entry.1 = some key ∧ (headerValue entry.2).isSome).map (·.2)).or
          (response.headers.lookup key) := by
  unfold Response.insertHeaders
  generalize extra.entries = entries
  induction entries generalizing response with
  | nil => rfl
  | cons entry rest ih =>
    rw [List.foldl_cons,ih,List.reverse_cons,List.find?_append]
    cases rest.reverse.find? fun entry => headerName entry.1 = some key ∧ (headerValue entry.2).isSome with
    | some later => rfl
    | none =>
      by_cases sets : headerName entry.1 = some key ∧ (headerValue entry.2).isSome = true
      · obtain ⟨value,valid⟩ := Option.isSome_iff_exists.mp sets.2
        obtain rfl := headerValue_eq valid
        rw [insertHeader_lookup sets.1 valid]
        simp [sets.1,valid]
      · rw [insertHeader_skips sets]
        simp [sets]

end Assembly

section Guards
variable {r : Router} {run : Runner} {tree : Tree} {req : Request} {dsl guard : Dsl}

end Guards

end Ruuter
