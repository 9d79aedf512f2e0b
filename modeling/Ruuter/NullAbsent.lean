import Mathlib.Data.Multiset.Filter
import Ruuter.Transport

/-! Null means absent. What each encoder of a query or header map writes is compared with the
entries that are not null, as texts. -/
namespace Ruuter

section Entries
variable (h : Host) (rename : String → String)

/-- The entries of a map that are to arrive: strings as they are, other values as JSON. -/
def present (map : StringMap Json) : Multiset (String × String) :=
  (Multiset.filter (fun entry => entry.2.isNull = false)
    (map.entries : Multiset (Sigma fun _ : String => Json))).map
      fun entry => (rename entry.1,jsonToString h entry.2)

/-- The entries of a map of texts. -/
def pairs (map : StringMap String) : Multiset (String × String) :=
  (map.entries.map fun entry => (entry.1,entry.2) : List (String × String))

/-- The header list of a request: those of the map, and what frames the body. -/
def HeadersArrive (sent : List (String × String)) (headers : StringMap Json) : Prop :=
  ∃ framing : List (String × String), (sent : Multiset (String × String)) = present h id headers + framing ∧
    ∀ header ∈ framing, header.1 = "content-type" ∨ header.1 = "content-length"

end Entries

section Template
variable (h : Host) (engine : Engine) (ctx : Ctx)

/-- The context a template runs in. -/
def templateChild (body query headers : Option (StringMap Json)) : Ctx :=
  let texts : StringMap String := ((headers.getD ∅).entries.filter (!·.2.isNull)).foldl
    (fun map entry => map.insert entry.1 (jsonToString h entry.2)) ∅
  { requestBody := body.getD ∅
    requestQuery := query.getD ∅
    requestHeaders := texts
    requestOrigin := ctx.requestOrigin
    project := ctx.project
    traceparent := ctx.traceparent.or (texts.lookup "traceparent") }

def templateKey (s : TemplateStep) : String :=
  h.uppercase (s.requestType.getD "GET") ++ "/" ++ Text.trimMatches s.template '/'

/-- `template` from the guards on. -/
def callTarget (s : TemplateStep) (target : Dsl) (child : Ctx) : M StepResult := do
  let chain ← consult fun now =>
    applicableGuards (h.loadGuards now) h.guardsMode ctx.project (templateKey h s)
  let result ← inChild (guarded (templateGuards engine.run child chain) Refusal.raise
    (engine.run target child))
  bindResult s.result (result.value.getD .null)
  pure { nextStep := s.next }

/-- The target and the arguments of a template step, resolved. -/
structure TemplateResolves (s : TemplateStep) (target : Dsl) (body query headers : Option (StringMap Json))
    (before now : St) : Prop where
  found : ∃ dsls, h.loadDsls before.clock = some dsls ∧
    lookupDsl dsls ctx.project (h.uppercase (s.requestType.getD "GET")) (templateKey h s) = some target
  evaluated : ∃ afterBody afterQuery,
    evaluateMapArg h ctx "template" "body" s.body { before with clock := before.clock + 1 } =
      (.ok body,afterBody) ∧
    evaluateMapArg h ctx "template" "query" s.query afterBody = (.ok query,afterQuery) ∧
    evaluateMapArg h ctx "template" "headers" s.headers afterQuery = (.ok headers,now)

variable {h engine ctx}

theorem executeTemplate_child (resolves : TemplateResolves h ctx s target body query headers before now) :
    executeTemplate h engine ctx s before =
      callTarget h engine ctx s target (templateChild h ctx body query headers) now := by
  obtain ⟨⟨dsls,loaded,found⟩,afterBody,afterQuery,evaluatedBody,evaluatedQuery,evaluatedHeaders⟩ := resolves
  have asked : consult h.loadDsls before = (.ok (some dsls),{ before with clock := before.clock + 1 }) := by
    simp only [consult,loaded]
  refine (Eff.bind_eq_ok asked).trans ?_
  simp only [templateKey] at found
  simp only [found]
  refine (Eff.bind_eq_ok evaluatedBody).trans ?_
  refine (Eff.bind_eq_ok evaluatedQuery).trans ?_
  exact Eff.bind_eq_ok evaluatedHeaders

end Template

section Property
variable (h : Host) (client : OutboundClient) (net : Network)

/-- The client answers the request itself. -/
structure OutboundClient.SelfCalls (parsed : Url) (url : String) : Prop where
  online : client.offline = false
  enabled : client.outboundDisabled = false
  self : client.isSelf url = true
  wired : client.hasRouterHandle = true
  given : client.parseUrl url = .ok parsed

/-- The request as another iteration over its header map finds it. -/
def Outbound.reordered (request : Outbound) (headers : StringMap Json) : Outbound :=
  { request with headers := some headers }

/-- The query pairs of a URL. -/
def Url.pairs (parsed : Url) : StringMap Json :=
  parsed.queryPairs.foldl (fun map pair => map.insert pair.1 (.string pair.2)) ∅

/-- The value a query entry is to arrive as. -/
def arriving (value : Json) : Option Json :=
  if value.isNull then none else some (.string (jsonToString h value))

/-- Null means absent: whichever transport a request takes, the receiver is handed the entries of
its query and header maps that are not null, each once and as text, beside the query of the URL
and the framing of the body; and so is the target of a template for its headers. -/
structure NullAbsent (request : Outbound) : Prop where
  tcp : client.Sends request.url → ∀ sent forceJson, encode h client net request = .ok (.tcp sent forceJson) →
    (sent.query : Multiset (String × String)) = present h id (request.query.getD ∅) ∧
      HeadersArrive h sent.headers (request.headers.getD ∅)
  socket : client.Sends request.url → ∀ sent, encode h client net request = .ok (.socket sent) →
    (sent.query : Multiset (String × String)) = present h id (request.query.getD ∅) ∧
      HeadersArrive h sent.headers (request.headers.getD ∅)
  selfCall : ∀ parsed, client.SelfCalls parsed request.url → ∀ r run tree now,
    requestWithCt h client.toHttpClient r run tree request now =
      let incoming := selfIncoming h client.toHttpClient parsed request
      Eff.attempt (executeByUrl r run tree request.method parsed.path incoming.params incoming.headers
        incoming.body) { now with trace := now.trace ++ [.requested request] }
  selfQuery : ∀ parsed, client.SelfCalls parsed request.url → ∀ name,
    (selfIncoming h client.toHttpClient parsed request).params.lookup name =
      (((request.query.getD ∅).lookup name).bind (arriving h)).or (parsed.pairs.lookup name)
  selfHeaders : ∀ parsed, client.SelfCalls parsed request.url → ∀ order : StringMap Json,
    order.entries.Perm (request.headers.getD ∅).entries →
    pairs (selfIncoming h client.toHttpClient parsed (request.reordered order)).headers =
      present h client.lowercase (request.headers.getD ∅)
  template : ∀ engine ctx s target body query headers before now,
    TemplateResolves h ctx s target body query headers before now →
    ∃ child, executeTemplate h engine ctx s before = callTarget h engine ctx s target child now ∧
      pairs child.requestHeaders = present h id (headers.getD ∅)

/-- A query over a Unix socket has no null; the query of a self-call is all strings, its headers
are distinct in lower case, and a null one falls together with a text that reads the same. -/
structure NullSafe (request : Outbound) : Prop where
  socket : client.Sends request.url → ∀ sent, encode h client net request = .ok (.socket sent) →
    ∀ name, (request.query.getD ∅).lookup name ≠ some .null
  selfQuery : ∀ parsed, client.SelfCalls parsed request.url → ∀ name value,
    (request.query.getD ∅).lookup name = some value → ∃ text, value = .string text
  selfDistinct : ∀ parsed, client.SelfCalls parsed request.url →
    ((present h client.lowercase (request.headers.getD ∅)).map Prod.fst).Nodup
  selfNull : ∀ parsed, client.SelfCalls parsed request.url → ∀ name,
    (request.headers.getD ∅).lookup name = some .null →
    (client.lowercase name,jsonToString h .null) ∈ present h client.lowercase (request.headers.getD ∅)

end Property

section Delivery
variable {h : Host} {client : OutboundClient} {net : Network}

theorem requestWithCt_self (calls : client.SelfCalls parsed request.url) (r : Router) (run : Runner)
    (tree : Tree) (now : St) :
    requestWithCt h client.toHttpClient r run tree request now =
      let incoming := selfIncoming h client.toHttpClient parsed request
      Eff.attempt (executeByUrl r run tree request.method parsed.path incoming.params incoming.headers
        incoming.body) { now with trace := now.trace ++ [.requested request] } := by
  dsimp only
  rw [← selfCallDispatch_eq calls.given]
  simp only [requestWithCt,calls.online,calls.enabled,calls.self,calls.wired,Bool.false_eq_true,if_false,
    and_self,if_true]
  rfl

theorem present_eq (map : StringMap Json) :
    present h rename map = ((map.entries.filter (!·.2.isNull)).map fun entry =>
      (rename entry.1,jsonToString h entry.2) : List (String × String)) := by
  unfold present
  rw [Multiset.filter_coe,Multiset.map_coe]
  simp

theorem withoutNull_eq (map : Option (StringMap Json)) :
    (withoutNull h map : Multiset (String × String)) = present h id (map.getD ∅) := by
  rw [present_eq]
  rfl

/-- All entries of a map are present exactly when none is null. -/
theorem queryTexts_eq_iff (map : Option (StringMap Json)) :
    (queryTexts h map : Multiset (String × String)) = present h id (map.getD ∅) ↔
      ∀ name, (map.getD ∅).lookup name ≠ some .null := by
  rw [present_eq]
  constructor
  · intro same name found
    have sizes := congrArg Multiset.card same
    simp only [queryTexts,Multiset.coe_card,List.length_map] at sizes
    have member : (⟨name,.null⟩ : Sigma fun _ : String => Json) ∈ (map.getD ∅).entries :=
      AList.mem_lookup_iff.mp found
    have kept := List.length_filter_eq_length_iff.mp sizes.symm _ member
    simp [Json.isNull] at kept
  · intro safe
    have all : (map.getD ∅).entries.filter (!·.2.isNull) = (map.getD ∅).entries := by
      apply List.filter_eq_self.mpr
      rintro ⟨name,value⟩ member
      have found : (map.getD ∅).lookup name = some value := AList.mem_lookup_iff.mpr member
      cases value with
      | null => exact absurd found (safe name)
      | _ => rfl
    rw [all]
    rfl

theorem tcpBody_framing (given : tcpBody h declared body = .ok (extra,content)) :
    ∀ header ∈ extra, header.1 = "content-type" ∨ header.1 = "content-length" := by
  intro header member
  unfold tcpBody at given
  split at given
  · cases given
    cases member
  · split at given
    · cases given
      rw [List.mem_singleton.mp member]
      exact .inl rfl
    all_goals
      repeat' split at given
      all_goals
        cases given
        try cases member

/-- What is sent over TCP. -/
theorem encodeTcp_inv (given : encodeTcp h client net request = .ok encoded) :
    ∃ resolution extra body, tcpBody h request.contentType request.body = .ok (extra,body) ∧
      encoded = .tcp
        { resolution
          method := request.method
          url := request.url
          timeout := request.timeout.getD client.defaultTimeout
          query := withoutNull h request.query
          headers := withoutNull h request.headers ++ extra
          body } (request.contentType = some "json_override") := by
  unfold encodeTcp at given
  obtain ⟨resolution,_,given⟩ := Eff.except_bind_inv given
  obtain ⟨_,_,given⟩ := Eff.except_bind_inv given
  obtain ⟨⟨extra,body⟩,rendered,given⟩ := Eff.except_bind_inv given
  cases given
  exact ⟨resolution,extra,body,rendered,rfl⟩

theorem encodeSocket_sent (given : encodeSocket h client path host base request = .ok sent) :
    ∃ framing : List (String × String), sent.query = queryTexts h request.query ∧
      sent.headers = withoutNull h request.headers ++ framing ∧
      ∀ header ∈ framing, header.1 = "content-type" ∨ header.1 = "content-length" := by
  unfold encodeSocket at given
  dsimp only at given
  split at given
  · cases given
  · obtain ⟨_,_,given⟩ := Eff.except_bind_inv given
    cases given
    refine ⟨_,rfl,rfl,?_⟩
    intro header member
    split at member
    · cases member
    · rcases List.mem_append.mp member with length | type
      · split at length
        · cases length
        · rw [List.mem_singleton.mp length]
          exact .inr rfl
      · split at type
        · cases type
        · rw [List.mem_singleton.mp type]
          exact .inl rfl

/-- A request is encoded for the transport of its URL. -/
theorem encode_tcp (given : encode h client net request = .ok (.tcp sent forceJson)) :
    encodeTcp h client net request = .ok (.tcp sent forceJson) := by
  unfold encode at given
  split at given
  · obtain ⟨_,_,given⟩ := Eff.except_bind_inv given
    obtain ⟨_,_,given⟩ := Eff.except_bind_inv given
    cases given
  · split at given
    · exact given
    · split at given
      · cases given
      · obtain ⟨_,_,given⟩ := Eff.except_bind_inv given
        cases given

theorem encode_socket (given : encode h client net request = .ok (.socket sent)) :
    ∃ path host base, encodeSocket h client path host base request = .ok sent := by
  unfold encode at given
  split at given
  · obtain ⟨_,_,given⟩ := Eff.except_bind_inv given
    obtain ⟨_,encoded,given⟩ := Eff.except_bind_inv given
    cases given
    exact ⟨_,_,_,encoded⟩
  · split at given
    · obtain ⟨_,_,_,_,sent⟩ := encodeTcp_inv given
      cases sent
    · split at given
      · cases given
      · obtain ⟨_,encoded,given⟩ := Eff.except_bind_inv given
        cases given
        exact ⟨_,_,_,encoded⟩

theorem headersArrive_append (framing : ∀ header ∈ extra, header.1 = "content-type" ∨ header.1 = "content-length")
    (headers : Option (StringMap Json)) : HeadersArrive h (withoutNull h headers ++ extra) (headers.getD ∅) := by
  refine ⟨extra,?_,framing⟩
  rw [← Multiset.coe_add,withoutNull_eq]

end Delivery

section Maps
variable {h : Host} {rename : String → String} {map order : StringMap Json}

theorem mem_present : (name,text) ∈ present h rename map ↔
    ∃ entry ∈ map.entries, entry.2.isNull = false ∧ rename entry.1 = name ∧ jsonToString h entry.2 = text := by
  simp [present,and_assoc]

theorem mem_pairs {map : StringMap String} : (name,text) ∈ pairs map ↔ map.lookup name = some text := by
  rw [← Option.mem_def,AList.mem_lookup_iff]
  simp [pairs]

theorem pairs_names (map : StringMap String) : ((pairs map).map Prod.fst).Nodup := by
  unfold pairs
  rw [Multiset.map_coe,List.map_map,Multiset.coe_nodup]
  exact map.nodupKeys

/-- A map filled from a list has the entries of a set of pairs with distinct names, if every item
gives one of them and each comes from an item. -/
theorem pairs_foldl_eq {target : Multiset (String × String)} (distinct : (target.map Prod.fst).Nodup)
    {β : Type} {items : List β} {key value : β → String} (inside : ∀ item ∈ items, (key item,value item) ∈ target)
    (covered : ∀ pair ∈ target, ∃ item ∈ items, (key item,value item) = pair) :
    pairs (items.foldl (fun map item => map.insert (key item) (value item)) ∅) = target := by
  have single := Multiset.inj_on_of_nodup_map distinct
  refine (Multiset.Nodup.ext (pairs_names _).of_map distinct.of_map).mpr ?_
  rintro ⟨name,text⟩
  rw [mem_pairs]
  constructor
  · intro found
    rw [Assoc.lookup_foldl_insert,AList.lookup_empty,Option.or_none,Option.map_eq_some_iff] at found
    obtain ⟨item,last,rfl⟩ := found
    have same := List.find?_some last
    rw [decide_eq_true_eq] at same
    rw [← same]
    exact inside item (List.mem_reverse.mp (List.mem_of_find?_eq_some last))
  · intro member
    obtain ⟨item,listed,same⟩ := covered _ member
    obtain ⟨rfl,rfl⟩ := Prod.mk.inj same
    refine Assoc.lookup_foldl_insert_of_forall key value listed rfl ?_
    intro other otherListed sameKey
    exact congrArg Prod.snd (single _ (inside other otherListed) _ (inside item listed) sameKey)

/-- A map as an iteration that ends with one of its entries finds it. -/
theorem exists_order_last {entry : Sigma fun _ : String => Json} (member : entry ∈ map.entries) :
    ∃ order : StringMap Json, ∃ before, order.entries.Perm map.entries ∧ order.entries = before ++ [entry] := by
  obtain ⟨front,rest,eq⟩ := List.append_of_mem member
  have perm : (front ++ rest ++ [entry]).Perm map.entries := by
    rw [eq]
    exact (List.perm_append_singleton entry (front ++ rest)).trans List.perm_middle.symm
  exact ⟨⟨front ++ rest ++ [entry],(List.perm_nodupKeys perm).mpr map.nodupKeys⟩,_,perm,rfl⟩

/-- Renamed headers arrive whatever the order exactly when the names stay distinct and a null
falls together with a text that reads the same. -/
theorem renamed_iff (map : StringMap Json) :
    (∀ order : StringMap Json, order.entries.Perm map.entries →
      pairs (order.entries.foldl (fun headers entry =>
        headers.insert (rename entry.1) (jsonToString h entry.2)) ∅) = present h rename map) ↔
    ((present h rename map).map Prod.fst).Nodup ∧ ∀ name, map.lookup name = some .null →
      (rename name,jsonToString h .null) ∈ present h rename map := by
  constructor
  · intro arrives
    constructor
    · rw [← arrives map (List.Perm.refl _)]
      exact pairs_names _
    · intro name found
      obtain ⟨order,before,perm,last⟩ := exists_order_last (AList.mem_lookup_iff.mp found)
      rw [← arrives order perm,mem_pairs,last,List.foldl_append]
      exact AList.lookup_insert _
  · rintro ⟨distinct,nulls⟩ order perm
    refine pairs_foldl_eq distinct ?_ ?_
    · rintro ⟨name,value⟩ listed
      have member := perm.mem_iff.mp listed
      cases null : value.isNull with
      | false => exact mem_present.mpr ⟨_,member,null,rfl,rfl⟩
      | true =>
        have same : value = .null := by
          cases value <;> first | rfl | cases null
        subst same
        exact nulls name (AList.mem_lookup_iff.mpr member)
    · rintro ⟨name,text⟩ member
      obtain ⟨entry,listed,_,rfl,rfl⟩ := mem_present.mp member
      exact ⟨entry,perm.mem_iff.mpr listed,rfl⟩

/-- The headers of a template arrive. -/
theorem templateChild_headers (ctx : Ctx) (body query headers : Option (StringMap Json)) :
    pairs (templateChild h ctx body query headers).requestHeaders = present h id (headers.getD ∅) := by
  refine pairs_foldl_eq ?_ ?_ ?_
  · rw [present_eq,Multiset.map_coe,List.map_map,Multiset.coe_nodup]
    exact (headers.getD ∅).nodupKeys.sublist List.filter_sublist
  · rintro ⟨name,value⟩ listed
    obtain ⟨member,kept⟩ := List.mem_filter.mp listed
    exact mem_present.mpr ⟨_,member,by simpa using kept,rfl,rfl⟩
  · rintro ⟨name,text⟩ member
    obtain ⟨entry,listed,kept,rfl,rfl⟩ := mem_present.mp member
    exact ⟨entry,List.mem_filter.mpr ⟨listed,by simpa using kept⟩,rfl⟩

theorem pairs_string {parsed : Url} (found : parsed.pairs.lookup name = some value) :
    ∃ text, value = .string text := by
  unfold Url.pairs at found
  rw [Assoc.lookup_foldl_insert,AList.lookup_empty,Option.or_none,Option.map_eq_some_iff] at found
  obtain ⟨pair,_,rfl⟩ := found
  exact ⟨pair.2,rfl⟩

/-- The query of a self-call arrives exactly when its values are strings. -/
theorem selfParams_iff (client : HttpClient) (parsed : Url) (request : Outbound) :
    (∀ name, (selfIncoming h client parsed request).params.lookup name =
      (((request.query.getD ∅).lookup name).bind (arriving h)).or (parsed.pairs.lookup name)) ↔
    ∀ name value, (request.query.getD ∅).lookup name = some value → ∃ text, value = .string text := by
  have seen : ∀ name, (selfIncoming h client parsed request).params.lookup name =
      ((request.query.getD ∅).lookup name).or (parsed.pairs.lookup name) := by
    intro name
    refine (Assoc.lookup_foldl_entries (fun value => value) _ _ name).trans ?_
    rw [Option.map_id']
    rfl
  constructor
  · intro arrives name value found
    have same := arrives name
    rw [seen,found] at same
    cases value with
    | string text => exact ⟨text,rfl⟩
    | null => exact pairs_string (Option.mem_def.mp same.symm)
    | _ => cases same
  · intro strings name
    rw [seen]
    cases found : (request.query.getD ∅).lookup name with
    | none => rfl
    | some value =>
      obtain ⟨text,rfl⟩ := strings name value found
      rfl

end Maps

/-- Null means absent exactly when a query over a Unix socket has no null and the maps of a
self-call need no encoding. -/
theorem nullAbsent_iff (h : Host) (client : OutboundClient) (net : Network) (request : Outbound) :
    NullAbsent h client net request ↔ NullSafe h client net request := by
  constructor
  · intro absent
    refine ⟨?_,?_,?_,?_⟩
    · intro sends sent given
      obtain ⟨_,_,_,encoded⟩ := encode_socket given
      obtain ⟨_,query,_⟩ := encodeSocket_sent encoded
      have arrives := (absent.socket sends sent given).1
      rw [query] at arrives
      exact (queryTexts_eq_iff _).mp arrives
    · intro parsed calls
      exact (selfParams_iff _ parsed request).mp (absent.selfQuery parsed calls)
    · intro parsed calls
      exact ((renamed_iff _).mp (absent.selfHeaders parsed calls)).1
    · intro parsed calls
      exact ((renamed_iff _).mp (absent.selfHeaders parsed calls)).2
  · intro safe
    refine ⟨?_,?_,?_,?_,?_,?_⟩
    · intro sends sent forceJson given
      obtain ⟨_,extra,body,rendered,same⟩ := encodeTcp_inv (encode_tcp given)
      cases same
      exact ⟨withoutNull_eq _,headersArrive_append (tcpBody_framing rendered) _⟩
    · intro sends sent given
      obtain ⟨_,_,_,encoded⟩ := encode_socket given
      obtain ⟨framing,query,headers,names⟩ := encodeSocket_sent encoded
      rw [query,headers]
      exact ⟨(queryTexts_eq_iff _).mpr (safe.socket sends sent given),headersArrive_append names _⟩
    · intro parsed calls
      exact requestWithCt_self calls
    · intro parsed calls
      exact (selfParams_iff _ parsed request).mpr (safe.selfQuery parsed calls)
    · intro parsed calls
      exact (renamed_iff _).mpr ⟨safe.selfDistinct parsed calls,safe.selfNull parsed calls⟩
    · intro engine ctx s target body query headers before now resolves
      exact ⟨_,executeTemplate_child resolves,templateChild_headers ctx body query headers⟩

def nullHost : Host := { jsonText := fun _ => "null" }

/-- A request to a Unix socket with the query `k: null`. -/
def nullQueryRequest : Outbound :=
  { sidecarRequest with query := some ((∅ : StringMap Json).insert "k" .null) }

def nullQueryEncoded : SocketRequest := { sidecarEncoded with query := [("k","null")] }

/-- Over a Unix socket a null is sent as the text `null`. -/
theorem null_query_sent :
    encode nullHost {} absentSidecar nullQueryRequest = .ok (.socket nullQueryEncoded) ∧
      nullQueryEncoded.pathAndQuery = "/?k=null" ∧
      ¬ NullAbsent nullHost {} absentSidecar nullQueryRequest := by
  have encoded : encode nullHost {} absentSidecar nullQueryRequest = .ok (.socket nullQueryEncoded) := rfl
  refine ⟨encoded,by decide +kernel,?_⟩
  intro absent
  have sends : OutboundClient.Sends {} nullQueryRequest.url := ⟨rfl,rfl,fun self => by cases self.1⟩
  have sizes := congrArg Multiset.card (absent.socket sends _ encoded).1
  cases sizes

end Ruuter
