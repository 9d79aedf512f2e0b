import Ruuter.Redaction
import Ruuter.RequestReach
import Ruuter.ResponseHeaders

/-! The trace id of a request (`handle_request` of `src/router/mod.rs`). The wrapper around the handler takes the
traceparent of a request or makes one, writes it into the request, and names its trace id on the access line. -/
namespace Ruuter

/-- `{:0width$x}` of a number that fits. -/
def hexDigits (width n : Nat) : String :=
  String.ofList ((List.range width).reverse.map fun place => Nat.digitChar (n / 16 ^ place % 16))

/-- `generate_traceparent`, from the numbers it draws. -/
def generateTraceparent (traceId : BitVec 128) (spanId : BitVec 64) : String :=
  "-".intercalate ["00",hexDigits 32 traceId.toNat,hexDigits 16 spanId.toNat,"01"]

/-- The line at the end of `handle_request`. -/
structure AccessLine where
  method : String
  route : String
  status : UInt16
  project : String
  clientAddress : String
  traceId : String

/-- `HeaderMap::insert` of a traceparent: the values that were there go. -/
def injectTraceparent (req : Request) (traceparent : String) : Request :=
  match headerValue traceparent with
  | none => req
  | some value =>
    let text := if visible : value.toList.all isVisibleAscii = true then some (HeaderText.mk value visible) else none
    { req with headers := req.headers.filter (·.1 ≠ "traceparent") ++ [("traceparent",text)] }

/-- The request that the handler gets. -/
def tracedRequest (req : Request) (traceparent : String) : Request :=
  if (req.header "traceparent").isSome then req else injectTraceparent req traceparent

/-- The project of the span: a name that no project has is not repeated. -/
def projectForSpan (tree : Tree) (req : Request) : String :=
  let rawFirstSegment := (pathSegments req.path).headD ""
  if rawFirstSegment ∈ tree.dsls then rawFirstSegment else "<unknown>"

/-- `handle_request`: the answer, and the line that is logged where the access log is on. -/
def handleRequest (r : Router) (run : Runner) (tree : Tree) (accessLog : Bool) (req : Request) :
    M (Response × Option AccessLine) := do
  let traceparent ← traceparentOf r (req.header "traceparent")
  let response ← handleRequestInner r run tree (tracedRequest req traceparent)
  let line : AccessLine :=
    { method := req.method
      route := Logging.sanitizeLogValue req.path
      status := response.status
      project := projectForSpan tree req
      clientAddress := req.peer.getD ""
      traceId := (traceIdFrom traceparent).getD "" }
  pure (response,if accessLog then some line else none)

section Generated

theorem digitChar_mod (n : Nat) : Nat.digitChar (n % 16) ≠ '-' ∧ (Nat.digitChar (n % 16)).utf8Size = 1 ∧
    isVisibleAscii (Nat.digitChar (n % 16)) = true := by
  have digits : ∀ d < 16, Nat.digitChar d ≠ '-' ∧ (Nat.digitChar d).utf8Size = 1 ∧
      isVisibleAscii (Nat.digitChar d) = true := by
    decide
  exact digits (n % 16) (Nat.mod_lt n (by omega))

theorem utf8ByteSize_hexDigits (width n : Nat) : (hexDigits width n).utf8ByteSize = width := by
  have size : ∀ places : List Nat,
      (String.ofList (places.map fun place => Nat.digitChar (n / 16 ^ place % 16))).utf8ByteSize = places.length := by
    intro places
    induction places with
    | nil => rfl
    | cons place rest ih =>
      rw [List.map_cons,String.ofList_cons,String.utf8ByteSize_append,String.utf8ByteSize_singleton,ih,
        (digitChar_mod _).2.1,List.length_cons]
      omega
  rw [hexDigits,size,List.length_reverse,List.length_range]

theorem mem_hexDigits (member : c ∈ (hexDigits width n).toList) : c ≠ '-' ∧ isVisibleAscii c = true := by
  rw [hexDigits,String.toList_ofList] at member
  obtain ⟨place,_,rfl⟩ := List.mem_map.mp member
  exact ⟨(digitChar_mod _).1,(digitChar_mod _).2.2⟩

/-- A generated traceparent carries the trace id that was drawn. -/
theorem traceIdFrom_generateTraceparent (traceId : BitVec 128) (spanId : BitVec 64) :
    traceIdFrom (generateTraceparent traceId spanId) = some (hexDigits 32 traceId.toNat) := by
  have parts : Text.split (generateTraceparent traceId spanId) '-' =
      ["00",hexDigits 32 traceId.toNat,hexDigits 16 spanId.toNat,"01"] := by
    refine Text.split_intercalate ?_ (List.cons_ne_nil _ _)
    simp only [List.forall_mem_cons]
    exact ⟨by decide,fun dash => (mem_hexDigits dash).1 rfl,fun dash => (mem_hexDigits dash).1 rfl,by decide,nofun⟩
  simp only [traceIdFrom,parts,utf8ByteSize_hexDigits,if_true]

theorem visible_generateTraceparent (traceId : BitVec 128) (spanId : BitVec 64) :
    (generateTraceparent traceId spanId).toList.all isVisibleAscii = true := by
  have digits : ∀ width n, (hexDigits width n).toList.all isVisibleAscii = true :=
    fun _ _ => List.all_eq_true.mpr fun _ member => (mem_hexDigits member).2
  have joints : "-".toList.all isVisibleAscii = true ∧ "00".toList.all isVisibleAscii = true ∧
      "01".toList.all isVisibleAscii = true := by
    decide
  simp only [generateTraceparent,String.intercalate_cons_cons,String.intercalate_singleton,String.toList_append,List.all_append,
    digits,joints,Bool.and_self]

end Generated

section Injected
variable {req : Request}

/-- The request with the one traceparent, when it is text. -/
theorem injectTraceparent_visible (visible : traceparent.toList.all isVisibleAscii = true) :
    injectTraceparent req traceparent = { req with
      headers := req.headers.filter (·.1 ≠ "traceparent") ++ [("traceparent",some ⟨traceparent,visible⟩)] } := by
  simp only [injectTraceparent,headerValue_text ⟨traceparent,visible⟩,visible,dite_true]

theorem header_injected (visible : traceparent.toList.all isVisibleAscii = true) :
    (injectTraceparent req traceparent).header "traceparent" = some traceparent := by
  have gone : (req.headers.filter (·.1 ≠ "traceparent")).lookup "traceparent" = none := by
    refine List.lookup_eq_none_iff.mpr fun header member => ?_
    exact bne_iff_ne.mpr (of_decide_eq_true (List.mem_filter.mp member).2).symm
  rw [injectTraceparent_visible visible,Request.header,List.lookup_append,gone]
  rfl

theorem header_injected_ne (other : name ≠ "traceparent") (visible : traceparent.toList.all isVisibleAscii = true) :
    (injectTraceparent req traceparent).header name = req.header name := by
  have kept : ∀ headers : List (String × Option HeaderText),
      (headers.filter (·.1 ≠ "traceparent")).lookup name = headers.lookup name := by
    intro headers
    induction headers with
    | nil => rfl
    | cons header rest ih =>
      by_cases traced : header.1 = "traceparent"
      · rw [List.filter_cons_of_neg (by simp [traced]),ih,List.lookup_cons,traced,beq_false_of_ne other]
      · rw [List.filter_cons_of_pos (by simp [traced]),List.lookup_cons,List.lookup_cons,ih]
  rw [injectTraceparent_visible visible,Request.header,Request.header,List.lookup_append,kept,
    List.lookup_cons,beq_false_of_ne other]
  exact congrArg (Option.bind · _) (Option.or_none)

end Injected

section Seen
variable {r : Router} {run run' : Runner} {tree : Tree} {req : Request}

/-- The last of the configured values for the header. -/
def configuredTraceparent (r : Router) : Option String :=
  Assoc.latest (r.incomingHeaders.entries.map fun entry => (Text.toAsciiLowercase entry.1,entry.2)) "traceparent"

/-- The last of the values that the client sent. -/
def sentTraceparent (req : Request) : Option String :=
  Assoc.latest (req.headers.map fun header => (header.1,(header.2.map (·.text)).getD "")) "traceparent"

/-- The traceparent in the header map from which the runs of a request get their context. -/
def seenTraceparent (r : Router) (req : Request) : Option String :=
  if isWsUpgrade req then req.headersMap.lookup "traceparent" else (dslHeaders r req).lookup "traceparent"

theorem lookup_headersMap (req : Request) : req.headersMap.lookup "traceparent" = sentTraceparent req := by
  rw [Request.headersMap,Assoc.lookup_foldl_insert,sentTraceparent,Assoc.latest,← List.map_reverse,List.find?_map]
  simp [Function.comp_def]

theorem lookup_dslHeaders (r : Router) (req : Request) :
    (dslHeaders r req).lookup "traceparent" = (configuredTraceparent r).or (sentTraceparent req) := by
  rw [dslHeaders,Assoc.lookup_foldl_insert,lookup_headersMap,configuredTraceparent,Assoc.latest,
    ← List.map_reverse,List.find?_map]
  simp [Function.comp_def]

theorem seenTraceparent_eq (r : Router) (req : Request) : seenTraceparent r req =
    if isWsUpgrade req then sentTraceparent req else (configuredTraceparent r).or (sentTraceparent req) := by
  rw [seenTraceparent,lookup_headersMap,lookup_dslHeaders]

theorem front_upgrade (front : frontChecks r req = .upgrade) : isWsUpgrade req = true := by
  unfold frontChecks at front
  split at front
  · assumption
  · split_ifs at front

theorem front_route (front : frontChecks r req = .route) : isWsUpgrade req = false := by
  unfold frontChecks at front
  split at front
  · split at front <;> cases front
  · exact Bool.eq_false_iff.mpr ‹_›

/-- A request is served by runs in contexts with the traceparent of its header map: how other contexts run does
not matter. -/
theorem handler_sees (held : seenTraceparent r req = some seen)
    (same : ∀ dsl (ctx : Ctx), ctx.traceparent = some seen → run' dsl ctx = run dsl ctx) :
    handleRequestInner r run' tree req = handleRequestInner r run tree req := by
  have service (given : Option String) (traced : given = some seen) (project key : String) (dsl : Dsl) :
      SameService r run run' tree tree given project key dsl :=
    { chain := rfl
      guards := fun entry _ ctx serves => same entry.2 ctx (serves.traced seen traced)
      target := fun ctx serves => same dsl ctx (serves.traced seen traced) }
  unfold handleRequestInner
  split
  · rfl
  · rename_i front
    rw [seenTraceparent,if_pos (front_upgrade front)] at held
    exact handleWsUpgrade_same rfl fun project key dsl _ => service _ held project key dsl
  · rename_i front
    rw [seenTraceparent,if_neg (Bool.eq_false_iff.mp (front_route front))] at held
    split
    · rfl
    · exact routeRequest_same (fun _ => rfl) fun dsl key params _ => service _ held _ key dsl

end Seen

section Trace
variable {r : Router} {run : Runner} {tree : Tree} {accessLog : Bool} {req : Request} {s : St} {traceparent seen : String}

/-- The traceparent of a request: the first one that it carries, or a generated one. -/
def Adopts (req : Request) (traceparent : String) : Prop :=
  req.header "traceparent" = some traceparent ∨
    req.header "traceparent" = none ∧ ∃ traceId spanId, traceparent = generateTraceparent traceId spanId

/-- No other value of the header comes before the traceparent in the header map: neither a configured one, where
these count, nor a later one of the client. -/
def Unrivalled (r : Router) (req : Request) (traceparent : String) : Prop :=
  if isWsUpgrade req = false ∧ (configuredTraceparent r).isSome then configuredTraceparent r = some traceparent
  else req.header "traceparent" = none ∨ sentTraceparent req = some traceparent

/-- The request is answered by `execute_dsl`. -/
structure DslBranch (r : Router) (tree : Tree) (req : Request) : Prop where
  front : frontChecks r req = .route
  routed : ∃ project segments, pathSegments req.path = project :: segments ∧ ∀ dsl key params,
    resolveDslWithPathParams tree.dsls project (r.uppercase req.method) ("/".intercalate segments) = some (dsl,key,params) →
      dsl.declaration.bind (·.proxy) = none ∧ dsl.effectiveInternal r.defaultInternal = false
  read : ∃ body, readBody r req = .ok body

theorem Adopts.visible (adopts : Adopts req traceparent) (absent : req.header "traceparent" = none) :
    traceparent.toList.all isVisibleAscii = true := by
  rcases adopts with given | ⟨_,traceId,spanId,rfl⟩
  · rw [absent] at given
    cases given
  · exact visible_generateTraceparent traceId spanId

theorem tracedRequest_given (given : req.header "traceparent" = some traceparent) :
    tracedRequest req traceparent = req :=
  if_pos (by rw [given]; rfl)

theorem tracedRequest_absent (absent : req.header "traceparent" = none) :
    tracedRequest req traceparent = injectTraceparent req traceparent :=
  if_neg (by rw [absent]; decide)

theorem header_traced (adopts : Adopts req traceparent) :
    (tracedRequest req traceparent).header "traceparent" = some traceparent := by
  cases held : req.header "traceparent" with
  | none => rw [tracedRequest_absent held,header_injected (adopts.visible held)]
  | some given =>
    rcases adopts with same | ⟨absent,_⟩
    · rw [tracedRequest_given same,same]
    · rw [absent] at held
      cases held

theorem isWsUpgrade_traced (adopts : Adopts req traceparent) :
    isWsUpgrade (tracedRequest req traceparent) = isWsUpgrade req := by
  cases held : req.header "traceparent" with
  | none =>
    have visible := adopts.visible held
    rw [tracedRequest_absent held,isWsUpgrade,isWsUpgrade,header_injected_ne (by decide) visible,injectTraceparent_visible visible]
  | some given => rw [tracedRequest,if_pos (by rw [held]; rfl)]

theorem sent_traced (adopts : Adopts req traceparent) :
    ∃ sent, sentTraceparent (tracedRequest req traceparent) = some sent ∧
    (sent = traceparent ↔ req.header "traceparent" = none ∨ sentTraceparent req = some traceparent) := by
  cases held : req.header "traceparent" with
  | none =>
    refine ⟨traceparent,?_,iff_of_true rfl (.inl rfl)⟩
    rw [tracedRequest_absent held,injectTraceparent_visible (adopts.visible held),sentTraceparent,
      List.map_append,Assoc.latest_append]
    rfl
  | some given =>
    rw [tracedRequest,if_pos (by rw [held]; rfl)]
    obtain ⟨value,found,_⟩ := Option.bind_eq_some_iff.mp held
    obtain ⟨before,after,split,_⟩ := List.lookup_eq_some_iff.mp found
    have member : ("traceparent",value) ∈ req.headers := split ▸ List.mem_append_right before List.mem_cons_self
    obtain ⟨sent,same⟩ := Option.ne_none_iff_exists'.mp (Assoc.latest_ne_none
      (List.mem_map_of_mem (f := fun header : String × Option HeaderText => (header.1,(header.2.map (·.text)).getD "")) member))
    refine ⟨sent,same,?_⟩
    rw [sentTraceparent,same]
    simp

theorem seen_traced (r : Router) (adopts : Adopts req traceparent) :
    ∃ seen, seenTraceparent r (tracedRequest req traceparent) = some seen ∧
      (seen = traceparent ↔ Unrivalled r req traceparent) := by
  obtain ⟨sent,last,same⟩ := sent_traced adopts
  rw [seenTraceparent_eq,isWsUpgrade_traced adopts,last]
  unfold Unrivalled
  cases upgrade : isWsUpgrade req with
  | true => exact ⟨sent,rfl,by simpa using same⟩
  | false =>
    cases configured : configuredTraceparent r with
    | none => exact ⟨sent,rfl,by simpa using same⟩
    | some value => exact ⟨value,rfl,by simp⟩

theorem DslBranch.answers (branch : DslBranch r tree req) (given : req.header "traceparent" = some traceparent)
    (answered : handleRequestInner r run tree req s = (.ok response,t)) :
    response.headers.lookup "traceparent" = some traceparent ∧
      ∀ traceId, traceIdFrom traceparent = some traceId → response.headers.lookup "x-trace-id" = some traceId := by
  obtain ⟨front,⟨project,segments,split,routed⟩,body,read⟩ := branch
  have reaches : handleRequestInner r run tree req = dslRoute r run tree req project ("/".intercalate segments) := by
    cases resolved : resolveDslWithPathParams tree.dsls project (r.uppercase req.method) ("/".intercalate segments) with
    | none => exact handle_unresolved front split resolved
    | some found =>
      obtain ⟨plain,external⟩ := routed _ _ _ resolved
      exact handle_external front split resolved plain external
  have executed : executeDsl r run tree project req.method ("/".intercalate segments) body (stringValues req.queryMap)
      (dslHeaders r req) (resolveOrigin r req (dslHeaders r req)) s = (_,_) := rfl
  obtain ⟨echoed,u,adopted,assembled⟩ := dslRoute_outcome read executed
  rw [reaches,assembled] at answered
  rw [given] at adopted
  cases adopted
  cases answered
  have valid := headerValue_header given
  exact ⟨applyDefaultResponseHeaders_lookup (echoTrace_lookup valid _),
    fun traceId shape => applyDefaultResponseHeaders_lookup (echoTrace_traceId valid shape)⟩

/-- What the access line, the answer and the runs of a request have as its traceparent. -/
structure Traced (r : Router) (run : Runner) (tree : Tree) (accessLog : Bool) (req : Request) (s : St)
    (traceparent seen : String) : Prop where
  adopted : Adopts req traceparent
  identified : req.header "traceparent" = none → (traceIdFrom traceparent).isSome = true
  logged : ∀ response line t, handleRequest r run tree accessLog req s = (.ok (response,some line),t) →
    line.traceId = (traceIdFrom traceparent).getD ""
  echoed : DslBranch r tree (tracedRequest req traceparent) →
    ∀ response line t, handleRequest r run tree accessLog req s = (.ok (response,line),t) →
      response.headers.lookup "traceparent" = some traceparent ∧
        ∀ traceId, traceIdFrom traceparent = some traceId → response.headers.lookup "x-trace-id" = some traceId
  runs : ∀ run' : Runner, (∀ dsl (ctx : Ctx), ctx.traceparent = some seen → run' dsl ctx = run dsl ctx) →
    handleRequest r run' tree accessLog req s = handleRequest r run tree accessLog req s
  agree : seen = traceparent ↔ Unrivalled r req traceparent

/-- One traceparent is on the access line, in the answer of `execute_dsl` and in every context that runs; for the
contexts that is so exactly when the header map of the request holds no other. -/
theorem request_traced (r : Router) (run : Runner) (tree : Tree) (accessLog : Bool) (req : Request) (s : St)
    (minted : ∀ n, ∃ traceId spanId, r.generateTraceparent n = generateTraceparent traceId spanId) :
    ∃ traceparent seen, Traced r run tree accessLog req s traceparent seen := by
  obtain ⟨traceparent,u,taken,adopts⟩ : ∃ traceparent u,
      traceparentOf r (req.header "traceparent") s = (.ok traceparent,u) ∧ Adopts req traceparent := by
    cases held : req.header "traceparent" with
    | none => exact ⟨_,_,rfl,.inr ⟨held,minted s.clock⟩⟩
    | some given => exact ⟨given,s,rfl,.inl held⟩
  obtain ⟨seen,lookup,agree⟩ := seen_traced r adopts
  have inner {run response line t} (handled : handleRequest r run tree accessLog req s = (.ok (response,line),t)) :
      (∃ v, handleRequestInner r run tree (tracedRequest req traceparent) u = (.ok response,v)) ∧
        ∀ written, line = some written → written.traceId = (traceIdFrom traceparent).getD "" := by
    unfold handleRequest at handled
    rw [Eff.bind_eq_ok taken] at handled
    obtain ⟨answer,v,answered,rest⟩ := Eff.bind_ok_inv handled
    cases rest
    refine ⟨⟨_,answered⟩,fun written logged => ?_⟩
    split at logged <;> cases logged
    rfl
  refine ⟨traceparent,seen,adopts,?_,?_,?_,?_,agree⟩
  · intro absent
    rcases adopts with given | ⟨_,traceId,spanId,rfl⟩
    · rw [absent] at given
      cases given
    · rw [traceIdFrom_generateTraceparent]
      rfl
  · exact fun response line t handled => (inner handled).2 line rfl
  · intro branch response line t handled
    obtain ⟨v,answered⟩ := (inner handled).1
    exact branch.answers (header_traced adopts) answered
  · intro run' same
    unfold handleRequest
    rw [Eff.bind_eq_ok taken,Eff.bind_eq_ok taken,handler_sees lookup same]

/-- A request that carries two traceparents. -/
def twiceTraced : Request where
  method := "GET"
  path := "/app/menu"
  headers := [("traceparent",some ⟨"first",by decide⟩),("traceparent",some ⟨"second",by decide⟩)]

def mintingRouter : Router where
  generateTraceparent n := generateTraceparent (BitVec.ofNat 128 n) (BitVec.ofNat 64 n)

/-- The first is logged and echoed, and the second is what runs see. -/
theorem request_traced_twice : ∃ traceparent seen,
    Traced mintingRouter (engine {} 5).run menuTree true twiceTraced {} traceparent seen ∧ seen ≠ traceparent := by
  obtain ⟨traceparent,seen,traced⟩ := request_traced mintingRouter (engine {} 5).run menuTree true twiceTraced {}
    fun n => ⟨BitVec.ofNat 128 n,BitVec.ofNat 64 n,rfl⟩
  refine ⟨traceparent,seen,traced,fun same => ?_⟩
  have unrivalled := traced.agree.mp same
  rcases traced.adopted with given | ⟨absent,_⟩
  · have first : traceparent = "first" := Option.some.inj (given.symm.trans rfl)
    subst first
    unfold Unrivalled at unrivalled
    revert unrivalled
    decide +kernel
  · cases absent

end Trace

end Ruuter
