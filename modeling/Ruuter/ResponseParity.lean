import Ruuter.Loopback
import Ruuter.ResponseHeaders

/-! The response of a self-call beside the response of the same run over the wire: what the
router renders and the client decodes. -/
namespace Ruuter

section Loopback
variable (h : Host) (client : OutboundClient)

/-- What the JSON library is relied on for: bytes of a text read as the text, printing a string
quotes it, printing an object prints its members, and what was printed reads as the same value up
to the precision of floats, if it reads at all. -/
structure JsonLibrary : Prop where
  lossy : ∀ text, client.utf8Lossy (utf8 text) = text
  nonempty : ∀ value, h.jsonText value ≠ ""
  quoted : ∀ text : String, text.length < (h.jsonText (.string text)).length
  member : ∀ name value, (h.jsonText value).length < (h.jsonText (.object [(name,value)])).length
  reads : ∀ value back, client.parseJson (utf8 (h.jsonText value)) = some back → back.shape = value.shape

def Body.bytes : Body → List UInt8
  | .json value => utf8 (h.jsonText value)
  | .text content => utf8 content
  | .upgraded .. | .forwarded .. => []

/-- A response as the client reads its head. -/
def Response.upstream (response : Response) : Upstream TransportError where
  status := response.status
  headers := response.headers.entries.map fun entry => (entry.1,headerText entry.2)
  chunks := [response.body.bytes h]

/-- A response as the client decodes it. -/
def received (response : Response) : HttpResponse :=
  let headers := responseHeaders (response.upstream h).headers
  { status := response.status
    body := decodeResponseBody client (response.body.bytes h) headers
    headers }

/-- The project and the path of a self-call. -/
def selfTarget (urlPath : String) : String × String :=
  let (project,rest) := (urlPath.toList.dropWhile (· == '/')).span (· ≠ '/')
  (String.ofList project,String.ofList rest.tail)

/-- What a self-call makes of a run. -/
def selfResponse (result : DslExecutionResult) : HttpResponse where
  status := result.status
  body := result.value
  headers := result.headers

/-- What the router makes of a run. -/
def rendered (r : Router) (traceparent : String) (result : DslExecutionResult) : Response :=
  applyDefaultResponseHeaders r (echoTrace traceparent (dslResponse r result))

variable (r : Router) (traceparent : String) (result : DslExecutionResult)

/-- A step binds the same status and body after a self-call that ends in a result as after a call
over the wire that ends in it. -/
structure ResponseParity : Prop where
  selfCalled : ∀ run tree method urlPath query headers body s t,
    executeDsl r run tree (selfTarget urlPath).1 method (selfTarget urlPath).2 body query headers
      "self-call" s = (.ok result,t) →
    executeByUrl r run tree method urlPath query headers body s = (.ok (selfResponse result),t)
  answered : ∀ run tree req project path body s t, readBody r req = .ok body →
    executeDsl r run tree project req.method path body (stringValues req.queryMap) (dslHeaders r req)
      (resolveOrigin r req (dslHeaders r req)) s = (.ok result,t) →
    ∃ given u, dslRoute r run tree req project path s = (.ok (rendered r given result),u)
  decoded : ∀ net request, client.responseSizeLimit = none →
    net.tcp request = .ok ((rendered r traceparent result).upstream h) →
    exchangeTcp client net request false = .ok (received h client (rendered r traceparent result))
  status : (selfResponse result).status = (received h client (rendered r traceparent result)).status
  body : (selfResponse result).body.getD .null =
    (received h client (rendered r traceparent result)).body.getD .null

/-- The content type an answer goes out with: the last valid one of the DSL. -/
def sentContentType (fallback : String) : String :=
  ((result.headers.entries.reverse.find? fun entry =>
    headerName entry.1 = some "content-type" ∧ (headerValue entry.2).isSome).map (·.2)).getD fallback

/-- The client reads an answer with that content type as JSON. -/
def ReadAsJson (fallback : String) : Prop :=
  contentTypeIsJson (((headerText (sentContentType result fallback)).map (·.text)).getD "") = true

/-- The DSL declares a content type that is not JSON. -/
def declaresText : Bool :=
  (((result.headers.entries.find? fun entry => eqIgnoreAsciiCase entry.1 "content-type").map (·.2)).map
    fun mime => !isJsonMime (mimeOf mime)).getD false

/-- The status is not overridden, and is a status code. -/
def StatusKept : Prop :=
  if result.status = 200 then
    ∀ configured, (if result.value.isSome then r.dslWithResponseStatus else r.dslWithoutResponseStatus) =
      some configured → configured = 200 ∨ configured < 100 ∨ 999 < configured
  else 100 ≤ result.status ∧ result.status ≤ 999

/-- There is a value, no envelope, and the client reads the value back: a text under a content
type of its own, anything else as JSON. -/
def ValueKept : Prop :=
  result.wrapper.getD r.defaultWrapper = false ∧ ∃ value, result.value = some value ∧
    ((declaresText result = true ∧ ∃ content, value = .string content ∧
      (content ≠ "" → ReadAsJson result "text/plain; charset=utf-8" →
        ∀ back, client.parseJson (utf8 content) = some back → back = value)) ∨
    ((declaresText result = true → value.asStr? = none) ∧ ReadAsJson result "application/json" ∧
      client.parseJson (utf8 (h.jsonText value)) = some value))

end Loopback

section Heads
variable {response : Response}

/-- Header names are in lower case. -/
def Lowered (headers : StringMap String) : Prop := ∀ name ∈ headers, Text.toAsciiLowercase name = name

theorem Lowered.insert {headers : StringMap String} (held : Lowered headers)
    (lower : Text.toAsciiLowercase name = name) : Lowered (headers.insert name value) := by
  intro other member
  rcases (AList.mem_insert headers).mp member with rfl | before
  · exact lower
  · exact held other before

theorem insertHeader_lowered (held : Lowered response.headers) (name value : String) :
    Lowered (response.insertHeader name value).headers := by
  unfold Response.insertHeader
  split
  · rename_i lower _ named _
    exact held.insert (headerName_lowered named)
  · exact held

theorem insertHeaders_lowered (held : Lowered response.headers) (extra : StringMap String) :
    Lowered (response.insertHeaders extra).headers :=
  Assoc.foldl_preserves (P := fun answer : Response => Lowered answer.headers)
    (fun _ _ before => insertHeader_lowered before _ _) extra.entries held

theorem echoTrace_lowered (held : Lowered response.headers) (traceparent : String) :
    Lowered (echoTrace traceparent response).headers := by
  unfold echoTrace
  dsimp only
  split
  · exact insertHeader_lowered (insertHeader_lowered held _ _) _ _
  · exact insertHeader_lowered held _ _

theorem applyDefaultResponseHeaders_lowered (held : Lowered response.headers) (r : Router) :
    Lowered (applyDefaultResponseHeaders r response).headers := by
  rw [applyDefaultResponseHeaders_eq]
  refine Assoc.foldl_preserves (P := fun answer : Response => Lowered answer.headers) ?_ _ held
  intro answer entry before
  unfold addDefaultHeader
  split
  · rename_i lower _ named _
    split
    · exact before
    · exact before.insert (headerName_lowered named)
  · exact before

/-- The head of a response as it is read. -/
theorem responseHeaders_lookup (h : Host) (name : String) :
    (responseHeaders (response.upstream h).headers).lookup name =
      (response.headers.lookup name).map fun value => ((headerText value).map (·.text)).getD "" := by
  unfold responseHeaders Response.upstream
  rw [List.foldl_map]
  refine (Assoc.lookup_foldl_entries (fun value => ((headerText value).map (·.text)).getD "")
    response.headers ∅ name).trans ?_
  rw [AList.lookup_empty,Option.or_none]

theorem eqIgnoreAsciiCase_lowered (lower : Text.toAsciiLowercase name = name) :
    eqIgnoreAsciiCase name "content-type" = true ↔ name = "content-type" := by
  have plain : "content-type".toList.map Char.toLower = "content-type".toList := by decide
  unfold eqIgnoreAsciiCase
  rw [beq_iff_eq,plain]
  constructor
  · intro same
    rw [← lower,Text.toAsciiLowercase,same,String.ofList_toList]
  · rintro rfl
    exact plain

end Heads

section Decoding
variable {h : Host} {client : OutboundClient} {r : Router} {result : DslExecutionResult}

/-- The value the client makes of the bytes of an answer. -/
def boundValue (client : OutboundClient) (result : DslExecutionResult) (fallback : String)
    (bytes : List UInt8) : Json :=
  if bytes.isEmpty then .string ""
  else if contentTypeIsJson (((headerText (sentContentType result fallback)).map (·.text)).getD "") then
    (client.parseJson bytes).getD (.string (client.utf8Lossy bytes))
  else .string (client.utf8Lossy bytes)

/-- The content type a response is decoded by. -/
theorem find_contentType {response : Response} (lowered : Lowered response.headers) :
    ((responseHeaders (response.upstream h).headers).entries.find? fun entry =>
      eqIgnoreAsciiCase entry.1 "content-type").map (fun entry => entry.2) =
      (response.headers.lookup "content-type").map fun value => ((headerText value).map (·.text)).getD "" := by
  rw [← responseHeaders_lookup]
  apply Assoc.find?_entries
  rintro ⟨name,text⟩ listed
  have held : (responseHeaders (response.upstream h).headers).lookup name = some text :=
    AList.mem_lookup_iff.mpr listed
  rw [responseHeaders_lookup] at held
  obtain ⟨value,found,_⟩ := Option.map_eq_some_iff.mp held
  have member : name ∈ response.headers := AList.lookup_isSome.mp (by rw [found]; rfl)
  exact eqIgnoreAsciiCase_lowered (lowered name member)

/-- An answer is decoded by the content type it goes out with. -/
theorem received_body {base : Response} (head : base.headers = contentType fallback) (traceparent : String) :
    (received h client (applyDefaultResponseHeaders r
      (echoTrace traceparent (base.insertHeaders result.headers)))).body =
      some (boundValue client result fallback (base.body.bytes h)) := by
  have lowered : Lowered base.headers := by
    rw [head]
    intro name member
    rw [(AList.mem_insert _).mp member |>.resolve_right (AList.notMem_empty name)]
    decide
  have sent : (applyDefaultResponseHeaders r (echoTrace traceparent
      (base.insertHeaders result.headers))).headers.lookup "content-type" =
      some (sentContentType result fallback) := by
    apply applyDefaultResponseHeaders_lookup
    rw [echoTrace_lookup_ne (by decide) (by decide),insertHeaders_lookup,head,contentType,AList.lookup_insert]
    unfold sentContentType
    cases result.headers.entries.reverse.find? fun entry =>
      headerName entry.1 = some "content-type" ∧ (headerValue entry.2).isSome <;> rfl
  have declared := find_contentType (h := h) (applyDefaultResponseHeaders_lowered (r := r)
    (echoTrace_lowered (insertHeaders_lowered lowered result.headers) traceparent))
  rw [sent] at declared
  have bytes : (applyDefaultResponseHeaders r (echoTrace traceparent
      (base.insertHeaders result.headers))).body = base.body := by simp
  unfold received decodeResponseBody boundValue
  dsimp only
  rw [bytes,declared]
  simp only [Option.map_some,Option.getD_some]
  split
  · rfl
  · split <;> rfl

/-- What is rendered as JSON. -/
def payload (r : Router) (result : DslExecutionResult) : Json :=
  let raw := result.value.getD (.object [])
  if result.wrapper.getD r.defaultWrapper then .object [("response",raw)] else raw

/-- The raw text of a run that is not rendered as JSON. -/
def rawText (r : Router) (result : DslExecutionResult) : Option String :=
  if result.wrapper.getD r.defaultWrapper = false ∧ declaresText result = true then
    result.value.bind Json.asStr?
  else none

theorem dslResponse_raw (raw : rawText r result = some content) :
    dslResponse r result = (textResponse (renderedStatus r result) content).insertHeaders result.headers := by
  unfold rawText at raw
  split at raw
  · rename_i plain
    obtain ⟨value,given,text⟩ := Option.bind_eq_some_iff.mp raw
    obtain ⟨unwrapped,declares⟩ := plain
    cases value with
    | string content =>
      cases text
      unfold declaresText at declares
      simp only [dslResponse,renderedStatus,given,unwrapped,declares,Option.getD_some,Bool.not_false,
        Bool.and_self,if_true]
    | _ => cases text
  · cases raw

theorem dslResponse_json (json : rawText r result = none) :
    dslResponse r result =
      (jsonResponse (renderedStatus r result) (payload r result)).insertHeaders result.headers := by
  unfold dslResponse
  dsimp only
  split
  · rename_i content raw
    split
    · rename_i plain
      rw [Bool.and_eq_true,Bool.not_eq_true'] at plain
      have given : result.value = some (.string content) := by
        cases value : result.value with
        | none => simp [value] at raw
        | some held => simpa [value] using raw
      have text : rawText r result = some content := by
        unfold rawText declaresText
        rw [if_pos plain,given]
        rfl
      rw [json] at text
      cases text
    · rfl
  · rfl

/-- The status arrives exactly when it is not overridden. -/
theorem renderedStatus_iff : result.status = renderedStatus r result ↔ StatusKept r result := by
  unfold renderedStatus StatusKept statusFromU16
  dsimp only
  split
  · rename_i ok
    generalize (if result.value.isSome then r.dslWithResponseStatus else r.dslWithoutResponseStatus) = given
    rw [ok]
    cases given with
    | none => simp
    | some configured =>
      simp only [Option.getD_some,Option.some.injEq,forall_eq',Bool.and_eq_true,decide_eq_true_eq]
      split
      · rename_i code
        constructor
        · exact fun same => .inl same.symm
        · rintro (same | low | high)
          · exact same.symm
          · exact absurd code.1 (UInt16.not_le.mpr low)
          · exact absurd code.2 (UInt16.not_le.mpr high)
      · rename_i code
        refine iff_of_true rfl ?_
        rcases not_and_or.mp code with low | high
        · exact .inr (.inl (UInt16.not_le.mp low))
        · exact .inr (.inr (UInt16.not_le.mp high))
  · rename_i other
    simp only [Bool.and_eq_true,decide_eq_true_eq]
    split
    · rename_i code
      exact iff_of_true rfl code
    · rename_i code
      exact iff_of_false other code

theorem ne_nested (name : String) (value : Json) : value ≠ .object [(name,value)] := by
  intro same
  have sizes := congrArg sizeOf same
  simp only [Json.object.sizeOf_spec,List.cons.sizeOf_spec,List.nil.sizeOf_spec,Prod.mk.sizeOf_spec] at sizes
  omega

/-- A text comes back unless the client reads another value from it. -/
theorem boundValue_text (lib : JsonLibrary h client) (fallback content : String) :
    Json.string content = boundValue client result fallback (utf8 content) ↔
      (content ≠ "" → ReadAsJson result fallback →
        ∀ back, client.parseJson (utf8 content) = some back → back = .string content) := by
  unfold boundValue ReadAsJson
  by_cases empty : content = ""
  · subst empty
    exact iff_of_true rfl (fun given => absurd rfl given)
  rw [utf8_ne_nil empty,lib.lossy]
  simp only [Bool.false_eq_true,if_false]
  split
  · rename_i json
    cases read : client.parseJson (utf8 content) with
    | none => simp
    | some back =>
      simp only [Option.getD_some,Option.some.injEq,forall_eq']
      exact ⟨fun same _ _ => same.symm,fun kept => (kept empty json).symm⟩
  · rename_i json
    exact iff_of_true rfl (fun _ given => absurd given json)

/-- A printed value is read as JSON, or bound as the text it was printed as. -/
theorem boundValue_printed (lib : JsonLibrary h client) (fallback : String) (value : Json) :
    (ReadAsJson result fallback ∧ client.parseJson (utf8 (h.jsonText value)) =
      some (boundValue client result fallback (utf8 (h.jsonText value)))) ∨
    boundValue client result fallback (utf8 (h.jsonText value)) = .string (h.jsonText value) := by
  unfold boundValue ReadAsJson
  rw [utf8_ne_nil (lib.nonempty value),lib.lossy]
  simp only [Bool.false_eq_true,if_false]
  split
  · rename_i json
    cases client.parseJson (utf8 (h.jsonText value)) with
    | some back => exact .inl ⟨json,rfl⟩
    | none => exact .inr rfl
  · exact .inr rfl

theorem boundValue_read (lib : JsonLibrary h client) (json : ReadAsJson result fallback)
    (read : client.parseJson (utf8 (h.jsonText value)) = some back) :
    boundValue client result fallback (utf8 (h.jsonText value)) = back := by
  unfold ReadAsJson at json
  unfold boundValue
  rw [utf8_ne_nil (lib.nonempty value),json,read]
  rfl

theorem rawText_eq_some : rawText r result = some content ↔
    result.wrapper.getD r.defaultWrapper = false ∧ declaresText result = true ∧
      result.value = some (.string content) := by
  unfold rawText
  split
  · rename_i plain
    cases value : result.value with
    | none => simp
    | some held => cases held <;> simp [plain.1,plain.2,Json.asStr?]
  · rename_i wrapped
    simp only [reduceCtorEq,false_iff]
    exact fun given => wrapped ⟨given.1,given.2.1⟩

/-- A printed value that is bound again was not wrapped and reads back. -/
theorem payload_kept (lib : JsonLibrary h client)
    (same : result.value.getD .null = boundValue client result fallback (utf8 (h.jsonText (payload r result)))) :
    result.wrapper.getD r.defaultWrapper = false ∧ ∃ value, result.value = some value ∧
      ReadAsJson result fallback ∧ client.parseJson (utf8 (h.jsonText value)) = some value := by
  rcases boundValue_printed lib fallback (payload r result) with ⟨json,read⟩ | text
  · rw [← same] at read
    have shapes := lib.reads _ _ read
    cases wrap : result.wrapper.getD r.defaultWrapper with
    | false =>
      refine ⟨rfl,?_⟩
      cases given : result.value with
      | none => simp [payload,wrap,given,Json.shape] at shapes
      | some value =>
        simp only [payload,wrap,given,Option.getD_some,Bool.false_eq_true,if_false] at read
        exact ⟨value,rfl,json,read⟩
    | true =>
      cases given : result.value with
      | none => simp [payload,wrap,given,Json.shape] at shapes
      | some value =>
        simp only [payload,wrap,given,Option.getD_some,if_true,Json.shape,Json.shapeMembers] at shapes
        exact absurd shapes (ne_nested "response" value.shape)
  · rw [text] at same
    cases given : result.value with
    | none => simp [given] at same
    | some value =>
      simp only [given,Option.getD_some] at same
      have quoted := lib.quoted (h.jsonText (payload r result))
      rw [← same] at quoted
      have member := lib.member "response" value
      cases wrap : result.wrapper.getD r.defaultWrapper with
      | false =>
        simp only [payload,wrap,given,Option.getD_some,Bool.false_eq_true,if_false] at quoted
        omega
      | true =>
        simp only [payload,wrap,given,Option.getD_some,if_true] at quoted
        omega

/-- The body arrives exactly when there is a value, no envelope, and it reads back. -/
theorem received_value_iff (lib : JsonLibrary h client) (traceparent : String) :
    (selfResponse result).body.getD .null = (received h client (rendered r traceparent result)).body.getD .null ↔
      ValueKept h client r result := by
  unfold rendered ValueKept selfResponse
  cases raw : rawText r result with
  | some content =>
    obtain ⟨plain,declares,given⟩ := rawText_eq_some.mp raw
    rw [dslResponse_raw raw,received_body rfl]
    simp only [given,Option.getD_some]
    refine (boundValue_text lib _ content).trans ?_
    constructor
    · intro kept
      exact ⟨plain,_,rfl,.inl ⟨declares,content,rfl,kept⟩⟩
    · rintro ⟨_,value,same,⟨_,other,text,kept⟩ | ⟨none,_⟩⟩
      · cases same
        cases text
        exact kept
      · cases same
        cases none declares
  | none =>
    rw [dslResponse_json raw,received_body rfl]
    simp only [Option.getD_some]
    constructor
    · intro same
      obtain ⟨plain,value,given,json,read⟩ := payload_kept lib same
      refine ⟨plain,value,given,.inr ⟨?_,json,read⟩⟩
      intro declares
      cases value with
      | string content =>
        rw [rawText_eq_some.mpr ⟨plain,declares,given⟩] at raw
        cases raw
      | _ => rfl
    · rintro ⟨plain,value,given,⟨declares,content,rfl,_⟩ | ⟨_,json,read⟩⟩
      · rw [rawText_eq_some.mpr ⟨plain,declares,given⟩] at raw
        cases raw
      · have sent : payload r result = value := by
          simp [payload,plain,given]
        rw [given,sent]
        exact (boundValue_read lib json read).symm

end Decoding

section Links
variable {h : Host} {client : OutboundClient} {r : Router} {run : Runner} {tree : Tree}

theorem executeByUrl_ok (executed : executeDsl r run tree (selfTarget urlPath).1 method (selfTarget urlPath).2
      body query headers "self-call" s = (.ok result,t)) :
    executeByUrl r run tree method urlPath query headers body s = (.ok (selfResponse result),t) :=
  Eff.bind_eq_ok executed

theorem dslRoute_rendered (read : readBody r req = .ok body)
    (executed : executeDsl r run tree project req.method path body (stringValues req.queryMap)
      (dslHeaders r req) (resolveOrigin r req (dslHeaders r req)) s = (.ok result,t)) :
    ∃ given u, dslRoute r run tree req project path s = (.ok (rendered r given result),u) := by
  obtain ⟨given,u,_,answered⟩ := dslRoute_outcome read executed
  exact ⟨given,u,answered⟩

theorem exchangeTcp_received {net : Network} {response : Response} (unlimited : client.responseSizeLimit = none)
    (answered : net.tcp request = .ok (response.upstream h)) :
    exchangeTcp client net request false = .ok (received h client response) := by
  simp only [exchangeTcp,answered,unlimited,Bool.false_eq_true,if_false,overDeclared,Option.bind_none]
  simp [Response.upstream,collectBody,received]

end Links

/-- A self-call binds what the call over the wire binds exactly when the status is not overridden
and the value needs no rendering. -/
theorem responseParity_iff (h : Host) (client : OutboundClient) (lib : JsonLibrary h client) (r : Router)
    (traceparent : String) (result : DslExecutionResult) :
    ResponseParity h client r traceparent result ↔ StatusKept r result ∧ ValueKept h client r result := by
  have status : (received h client (rendered r traceparent result)).status = renderedStatus r result := by
    simp [received,rendered,dslResponse_status]
  constructor
  · intro parity
    have same := parity.status
    rw [status] at same
    exact ⟨renderedStatus_iff.mp same,(received_value_iff lib traceparent).mp parity.body⟩
  · rintro ⟨statusKept,valueKept⟩
    refine ⟨?_,?_,?_,?_,(received_value_iff lib traceparent).mpr valueKept⟩
    · intro run tree method urlPath query headers body s t executed
      exact executeByUrl_ok executed
    · intro run tree req project path body s t read executed
      exact dslRoute_rendered read executed
    · intro net request unlimited answered
      exact exchangeTcp_received unlimited answered
    · rw [status]
      exact renderedStatus_iff.mpr statusKept

section Sample

def plainLossy (bytes : List UInt8) : String := (String.fromUTF8? ⟨bytes.toArray⟩).getD ""

/-- A client that reads one text. -/
def plainClient (text : String) (value : Json) : OutboundClient where
  parseJson := fun bytes => if bytes = utf8 text then some value else none
  utf8Lossy := plainLossy

theorem plainClient_reads (text : String) (value : Json) :
    (plainClient text value).parseJson (utf8 text) = some value := by
  simp [plainClient]

theorem plainLossy_utf8 (text : String) : plainLossy (utf8 text) = text := by
  unfold plainLossy utf8
  rw [Array.toArray_toList]
  have valid : (⟨text.toUTF8.data⟩ : ByteArray).IsValidUTF8 := text.isValidUTF8
  unfold String.fromUTF8?
  rw [dif_pos valid]
  rfl

theorem plain_library : JsonLibrary plainHost (plainClient "true" (.bool true)) where
  lossy := plainLossy_utf8
  nonempty := compact_nonempty
  quoted text := by
    have quote : "\"".length = 1 := by decide
    simp only [plainHost,compact,String.length_append,quote]
    omega
  member name value := by
    have opening : "\x7b".length = 1 := by decide
    simp only [plainHost,compact,compactMembers,String.length_append,opening]
    omega
  reads value back given := by
    simp only [plainClient] at given
    split at given
    · rename_i same
      rw [compact_true (utf8_inj same),← Option.some.inj given]
    · cases given

def unwrappedResult : DslExecutionResult where
  value := some (.bool true)
  wrapper := some false

/-- The value `true` without an envelope. -/
theorem unwrapped_parity : JsonLibrary plainHost (plainClient "true" (.bool true)) ∧
    ResponseParity plainHost (plainClient "true" (.bool true)) {} "" unwrappedResult := by
  refine ⟨plain_library,(responseParity_iff _ _ plain_library {} "" unwrappedResult).mpr ⟨?_,?_⟩⟩
  · have ok : unwrappedResult.status = 200 := rfl
    unfold StatusKept
    rw [if_pos ok]
    intro configured given
    cases given
  · refine ⟨rfl,.bool true,rfl,.inr ⟨fun _ => rfl,?_,?_⟩⟩
    · unfold ReadAsJson
      decide +kernel
    · have printed : plainHost.jsonText (.bool true) = "true" := rfl
      rw [printed]
      exact plainClient_reads ..

def wrappedResult : DslExecutionResult where
  value := some (.bool true)

def envelopeClient : OutboundClient :=
  plainClient "\x7b\"response\":true\x7d" (.object [("response",.bool true)])

/-- By default the value `true` goes over the wire in an envelope, and a self-call binds it bare. -/
theorem envelope_missing :
    (received plainHost envelopeClient (rendered {} "" wrappedResult)).body =
      some (.object [("response",.bool true)]) ∧
    (selfResponse wrappedResult).body = some (.bool true) ∧
    ¬ ResponseParity plainHost envelopeClient {} "" wrappedResult := by
  have bound : (received plainHost envelopeClient (rendered {} "" wrappedResult)).body =
      some (.object [("response",.bool true)]) := by
    unfold rendered
    rw [dslResponse_json rfl,received_body rfl]
    have json : contentTypeIsJson (((headerText (sentContentType wrappedResult "application/json")).map
        (·.text)).getD "") = true := by decide +kernel
    have printed : compact (payload {} wrappedResult) = "\x7b\"response\":true\x7d" := by decide
    have bytes : (jsonResponse (renderedStatus {} wrappedResult) (payload {} wrappedResult)).body.bytes plainHost =
        utf8 "\x7b\"response\":true\x7d" := congrArg utf8 printed
    rw [bytes]
    unfold boundValue
    rw [json,if_pos rfl,if_neg (by decide)]
    exact congrArg (fun read : Option Json => some (read.getD _)) (plainClient_reads ..)
  refine ⟨bound,rfl,?_⟩
  intro parity
  have same := parity.body
  rw [bound] at same
  cases same

end Sample
end Ruuter
