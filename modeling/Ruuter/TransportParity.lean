import Ruuter.Lib.Reader
import Ruuter.ResponseParity
import Ruuter.Transport

/-! One exchange over two transports. The encoders for TCP and for a Unix socket are written
separately: they agree on a request when it is sent as the JSON it is, and on a response unless the
content type is forced on it. -/
namespace Ruuter

/-- What the library makes of a form. -/
structure FormLibrary where
  encode : List (String × String) → String
  /-- What becomes of the content types that the request has already. -/
  contentTypes : List String → List String
  /-- Braces are escaped. -/
  escaped : ∀ fields, '\x7b' ∉ (encode fields).toList

/-- What the encoders take from the JSON library. -/
structure JsonTexts (h : Host) : Prop where
  null : h.jsonText .null = "null"
  object : ∀ members, (h.jsonText (.object members)).toList.head? = some '\x7b'
  /-- The text of an object holds those of its members. -/
  member : ∀ members name value, (name,value) ∈ members →
    (h.jsonText value).length < (h.jsonText (.object members)).length

/-- The body of a request as it is sent, with its content types. -/
structure Wire where
  body : List UInt8
  contentTypes : List String
deriving DecidableEq

def contentTypesOf (headers : List (String × String)) : List String :=
  (headers.filter fun header => eqIgnoreAsciiCase header.1 "content-type").map (·.2)

def validHeaders (headers : List (String × String)) : Bool :=
  headers.all fun header => (headerName header.1).isSome && (headerValue header.2).isSome

/-- A complete response. The library gives header names in lower case. -/
structure Answer where
  status : UInt16
  headers : List (String × Option HeaderText) := []
  chunks : List (List UInt8) := []
  lowercase : ∀ header ∈ headers, Text.toAsciiLowercase header.1 = header.1

namespace Answer

def upstream (answer : Answer) : Upstream ε where
  status := answer.status
  headers := answer.headers
  chunks := answer.chunks

def OverLimit (answer : Answer) (limit : Option Nat) : Prop :=
  (answer.upstream : Upstream TransportError).OverLimit limit

/-- A network on which every request is answered alike. -/
def network (answer : Answer) (net : Network) : Network :=
  { net with
    tcp := fun _ => .ok answer.upstream
    socket := fun _ => .ok answer.upstream }

end Answer

section Parity
variable (forms : FormLibrary) (h : Host) (client : OutboundClient) (net : Network)

/-- The bytes of a body and its content types, beside those of the headers. The JSON encoder sets
its own only when there is none. A multipart body is different every time. -/
def TcpBody.wire (own : List String) : TcpBody → Option Wire
  | .empty => some ⟨[],own⟩
  | .json value => some ⟨utf8 (h.jsonText value),if own.isEmpty then ["application/json"] else own⟩
  | .text content => some ⟨utf8 content,own⟩
  | .form fields => some ⟨utf8 (forms.encode fields),forms.contentTypes own⟩
  | .multipart _ => none

/-- What is sent of an encoded request. A request with an invalid header is not sent. -/
def Encoded.wire : Encoded → Option Wire
  | .tcp request _ =>
    if validHeaders request.headers then request.body.wire forms h (contentTypesOf request.headers) else none
  | .socket request => some ⟨utf8 (request.body.getD ""),contentTypesOf request.headers⟩

def wire (request : Outbound) : Option Wire :=
  (encode h client net request).toOption.bind (Encoded.wire forms h)

/-- Errors over the limit, else the same status, headers and body. -/
structure SameResult (limit : Option Nat) (answer : Answer) (first second : Except RuuterError HttpResponse) :
    Prop where
  beyond : answer.OverLimit limit → (∃ e, first = .error e) ∧ ∃ e, second = .error e
  within : ¬ answer.OverLimit limit → ∃ one two, first = .ok one ∧ second = .ok two ∧
    one.status = two.status ∧ (∀ name, one.headers.lookup name = two.headers.lookup name) ∧
    one.body = two.body ∧ one.error = none ∧ two.error = none

/-- A URL that goes over TCP and passes the checks there. -/
def Direct (url : String) : Prop :=
  socketTarget client url = none ∧ ∃ resolution, checkSsrf client net.lookupHost url = .ok resolution ∧
    buildPinnedClient net resolution = .ok ()

/-- A request that goes to a socket with a URI that parses. -/
def Socketed (request : Outbound) : Prop :=
  ∃ socket host base, socketTarget client request.url = some (.ok (socket,host,base)) ∧
    uriRefused h client request host base = false

/-- The exchange is the same over TCP and over a socket. -/
structure TransportParity (request : Outbound) (tcpUrl socketUrl : String) (answer : Answer) : Prop where
  sent : wire forms h client net { request with url := tcpUrl } =
    wire forms h client net { request with url := socketUrl }
  answered : (wire forms h client net { request with url := tcpUrl }).isSome = true →
    (wire forms h client net { request with url := socketUrl }).isSome = true →
    SameResult client.responseSizeLimit answer
      (transmit h client (answer.network net) { request with url := tcpUrl })
      (transmit h client (answer.network net) { request with url := socketUrl })

/-- Some header is named `content-type` while all such are null. -/
def NullContentType (request : Outbound) : Prop :=
  (request.headers.getD ∅).keys.any (eqIgnoreAsciiCase · "content-type") = true ∧
    contentTypesOf (withoutNull h request.headers) = []

/-- A request that is sent as the JSON it is. -/
structure PlainJson (request : Outbound) : Prop where
  plaintext : request.contentType ≠ some "plaintext"
  formdata : request.contentType ≠ some "formdata"
  dynamicBody : request.contentType = some "dynamicBody" → ∀ members, request.body ≠ some (.object members)
  typed : ¬ NullContentType h request

/-- The response carries the content type that would be forced on it, or is refused for its size. -/
def Unforced (limit : Option Nat) (request : Outbound) (answer : Answer) : Prop :=
  request.contentType = some "json_override" → answer.OverLimit limit ∨
    (responseHeaders answer.headers).lookup "content-type" = some "application/json"

end Parity

section Requests
variable {forms : FormLibrary} {h : Host} {client : OutboundClient} {net : Network}

theorem validHeaders_iff (headers : List (String × String)) : validHeaders headers = true ↔
    ∀ header ∈ headers, (headerName header.1).isSome = true ∧ (headerValue header.2).isSome = true := by
  unfold validHeaders
  simp only [List.all_eq_true,Bool.and_eq_true]

theorem contentTypesOf_append (first second : List (String × String)) :
    contentTypesOf (first ++ second) = contentTypesOf first ++ contentTypesOf second := by
  unfold contentTypesOf
  rw [List.filter_append,List.map_append]

/-- What is sent over a socket. -/
def socketWire (h : Host) (request : Outbound) : Wire where
  body := utf8 ((request.body.map h.jsonText).getD "")
  contentTypes := contentTypesOf (withoutNull h request.headers) ++
    if request.body.isSome ∧ (request.headers.getD ∅).keys.any (eqIgnoreAsciiCase · "content-type") = false then
      ["application/json"] else []

theorem contentTypesOf_framing (content : String) (length type : Bool) :
    contentTypesOf ((if length then [] else [("content-length",toString content.utf8ByteSize)]) ++
      if type then [] else [("content-type","application/json")]) =
        if type = false then ["application/json"] else [] := by
  have apart : eqIgnoreAsciiCase "content-length" "content-type" = false := by decide
  have same : eqIgnoreAsciiCase "content-type" "content-type" = true := by decide
  cases length <;> cases type <;> simp [contentTypesOf,apart,same]

theorem wire_of_encodeSocket (encoded : encodeSocket h client socket host base request = .ok sent) :
    Encoded.wire forms h (.socket sent) = some (socketWire h request) := by
  unfold encodeSocket at encoded
  dsimp only at encoded
  cases parses : client.uriError ("http://" ++ host ++ SocketRequest.pathAndQuery _) with
  | some e =>
    rw [parses] at encoded
    cases encoded
  | none =>
    rw [parses] at encoded
    obtain ⟨_,_,same⟩ := Eff.except_bind_inv encoded
    cases same
    unfold Encoded.wire socketWire
    dsimp only
    rw [contentTypesOf_append]
    cases given : request.body with
    | none => rfl
    | some value =>
      simp only [Option.map_some,Option.isSome_some,true_and,contentTypesOf_framing]

theorem wire_socketed (socketed : Socketed h client request) : wire forms h client net request =
    if validHeaders (withoutNull h request.headers) then some (socketWire h request) else none := by
  obtain ⟨socket,host,base,target,parses⟩ := socketed
  have accepted : (∃ sent, encodeSocket h client socket host base request = .ok sent) ↔ _ :=
    encodeSocket_ok_iff socket host base request
  unfold wire
  rw [encode_eq,target]
  simp only [bind,Except.bind]
  cases encoded : encodeSocket h client socket host base request with
  | error e =>
    rw [if_neg]
    · rfl
    · rw [validHeaders_iff]
      intro valid
      obtain ⟨_,impossible⟩ := accepted.mpr ⟨parses,valid⟩
      cases encoded.symm.trans impossible
  | ok sent =>
    rw [if_pos ((validHeaders_iff _).mpr (accepted.mp ⟨sent,encoded⟩).2)]
    have same : Encoded.wire forms h (.socket sent) = some (socketWire h request) := wire_of_encodeSocket encoded
    exact same

/-- What is sent over TCP. -/
def tcpWire (forms : FormLibrary) (h : Host) (request : Outbound) : Option Wire :=
  (tcpBody h request.contentType request.body).toOption.bind fun rendered =>
    rendered.2.wire forms h (contentTypesOf (withoutNull h request.headers) ++ contentTypesOf rendered.1)

theorem tcpBody_extra (rendered : tcpBody h declared body = .ok (extra,content)) :
    validHeaders extra = true := by
  have none : validHeaders [] = true := rfl
  have plain : validHeaders [("content-type","text/plain")] = true := by decide
  unfold tcpBody at rendered
  split at rendered
  · cases rendered
    exact none
  · split at rendered
    · cases rendered
      exact plain
    · split at rendered
      · split at rendered <;> cases rendered <;> exact none
      · cases rendered
    · split at rendered <;> cases rendered <;> exact none
    · cases rendered
      exact none

theorem wire_direct (direct : Direct client net request.url) : wire forms h client net request =
    if validHeaders (withoutNull h request.headers) then tcpWire forms h request else none := by
  obtain ⟨tcp,resolution,checked,pinned⟩ := direct
  unfold wire tcpWire
  rw [encode_eq,tcp]
  unfold encodeTcp
  simp only [checked,pinned,bind,Except.bind]
  cases rendered : tcpBody h request.contentType request.body with
  | error e => simp only [Except.toOption,Option.bind_none,ite_self]
  | ok content =>
    obtain ⟨extra,content⟩ := content
    simp only [pure,Except.pure,Except.toOption,Option.bind_some,Encoded.wire]
    have both : validHeaders (withoutNull h request.headers ++ extra) =
        validHeaders (withoutNull h request.headers) := by
      have own := tcpBody_extra rendered
      unfold validHeaders at own ⊢
      rw [List.all_append,own,Bool.and_true]
    rw [both,contentTypesOf_append]

/-- A request with a body that is sent as JSON. -/
theorem tcpWire_json (given : tcpBody h request.contentType request.body = .ok ([],.json value)) :
    tcpWire forms h request = some ⟨utf8 (h.jsonText value),
      if (contentTypesOf (withoutNull h request.headers)).isEmpty then ["application/json"]
      else contentTypesOf (withoutNull h request.headers)⟩ := by
  unfold tcpWire
  rw [given]
  simp only [Except.toOption,Option.bind_some,TcpBody.wire]
  rw [show contentTypesOf [] = [] from rfl,List.append_nil]

theorem contentTypesOf_nil {request : Outbound}
    (absent : (request.headers.getD ∅).keys.any (eqIgnoreAsciiCase · "content-type") = false) :
    contentTypesOf (withoutNull h request.headers) = [] := by
  unfold contentTypesOf withoutNull
  rw [List.map_eq_nil_iff,List.filter_eq_nil_iff]
  intro header member same
  obtain ⟨entry,inside,rfl⟩ := List.mem_map.mp member
  have listed : entry.1 ∈ (request.headers.getD ∅).keys :=
    List.mem_map_of_mem (List.mem_filter.mp inside).1
  exact List.any_eq_false.mp absent _ listed same

/-- The JSON default of both transports is the same unless every content type is null. -/
theorem contentTypes_iff (some : request.body.isSome = true) :
    (if (contentTypesOf (withoutNull h request.headers)).isEmpty then ["application/json"]
      else contentTypesOf (withoutNull h request.headers)) = (socketWire h request).contentTypes ↔
    ¬ NullContentType h request := by
  unfold socketWire NullContentType
  simp only [some,true_and]
  cases named : (request.headers.getD ∅).keys.any (eqIgnoreAsciiCase · "content-type") with
  | false =>
    rw [contentTypesOf_nil named]
    simp
  | true =>
    cases own : contentTypesOf (withoutNull h request.headers) <;> simp

theorem utf8_length_lt (shorter : left.length < right.length) : utf8 left ≠ utf8 right := by
  intro same
  rw [utf8_inj same] at shorter
  exact absurd shorter (Nat.lt_irrefl _)

/-- A form has no file parts. -/
def WithoutFiles (request : Outbound) : Prop :=
  request.contentType = some "formdata" → ∀ members, request.body = some (.object members) →
    members.any (Text.startsWith ·.1 "file:") = false

theorem socketWire_body {request : Outbound} (given : request.body = some value) :
    (socketWire h request).body = utf8 (h.jsonText value) := by
  unfold socketWire
  rw [given]
  rfl

theorem tcpWire_json_iff {request : Outbound} (given : request.body = some value)
    (rendered : tcpBody h request.contentType request.body = .ok ([],.json value)) :
    tcpWire forms h request = some (socketWire h request) ↔ ¬ NullContentType h request := by
  have present : request.body.isSome = true := by rw [given]; rfl
  rw [tcpWire_json rendered,Option.some.injEq,← contentTypes_iff present]
  constructor
  · intro same
    exact congrArg Wire.contentTypes same
  · intro same
    have body := socketWire_body (h := h) given
    cases whole : socketWire h request with
    | mk bytes types =>
      rw [whole] at same body
      dsimp only at body
      subst body
      rw [same]

/-- A form holds no brace, and JSON of an object begins with one. -/
theorem form_ne_object (texts : JsonTexts h) (fields : List (String × String)) (members : List (String × Json)) :
    utf8 (forms.encode fields) ≠ utf8 (h.jsonText (.object members)) := by
  intro same
  have front := texts.object members
  rw [← utf8_inj same] at front
  exact forms.escaped fields (List.mem_of_mem_head? front)

theorem dynamicBody_ne_object (texts : JsonTexts h) (members : List (String × Json)) :
    utf8 (h.jsonText ((members.lookup "dynamicBody").getD .null)) ≠ utf8 (h.jsonText (.object members)) := by
  cases found : members.lookup "dynamicBody" with
  | some value => exact utf8_length_lt (texts.member members _ value (mem_of_lookup found))
  | none =>
    intro same
    have front := texts.object members
    rw [← utf8_inj same,Option.getD_none,texts.null] at front
    exact absurd front (by decide)

/-- The encoder of a plain text adds a content type to those that are there. -/
theorem text_plain_extra (request : Outbound) :
    contentTypesOf (withoutNull h request.headers) ++ contentTypesOf [("content-type","text/plain")] ≠
      (socketWire h request).contentTypes := by
  have extra : contentTypesOf [("content-type","text/plain")] = ["text/plain"] := by decide
  unfold socketWire
  rw [extra]
  intro same
  have last := List.append_cancel_left same
  split at last
  · exact absurd last (by decide)
  · cases last

theorem tcpBody_json (plaintext : declared ≠ some "plaintext") (formdata : declared ≠ some "formdata")
    (dynamicBody : declared = some "dynamicBody" → ∀ members, value ≠ .object members) :
    tcpBody h declared (some value) = .ok ([],.json value) := by
  by_cases dynamic : declared = some "dynamicBody"
  · subst dynamic
    cases value with
    | object members => exact absurd rfl (dynamicBody rfl members)
    | _ => rfl
  · simp only [tcpBody]

/-- A request without a body is the same on both transports. -/
theorem tcpWire_none {request : Outbound} (given : request.body = none) :
    tcpWire forms h request = some (socketWire h request) := by
  unfold tcpWire socketWire
  simp only [given,tcpBody,Except.toOption,Option.bind_some,TcpBody.wire,Option.map_none,Option.getD_none,
    Option.isSome_none,Bool.false_eq_true,false_and,if_false]
  rfl

theorem tcpWire_plaintext {request : Outbound} (given : request.body = some value)
    (plaintext : request.contentType = some "plaintext") :
    tcpWire forms h request ≠ some (socketWire h request) := by
  intro same
  unfold tcpWire at same
  rw [given,plaintext] at same
  exact text_plain_extra request (congrArg Wire.contentTypes (Option.some.inj same))

theorem tcpWire_formdata {request : Outbound} (texts : JsonTexts h) (files : WithoutFiles request)
    (given : request.body = some value) (formdata : request.contentType = some "formdata") :
    tcpWire forms h request ≠ some (socketWire h request) := by
  intro same
  have body := socketWire_body (h := h) given
  unfold tcpWire at same
  rw [given,formdata] at same
  cases value with
  | object members =>
    have none := files formdata members given
    simp only [tcpBody,none,Bool.false_eq_true,if_false,Except.toOption,Option.bind_some,TcpBody.wire,
      Option.some.injEq] at same
    rw [← same] at body
    exact form_ne_object texts _ members body
  | _ => cases same

theorem tcpWire_dynamicBody {request : Outbound} (texts : JsonTexts h) (given : request.body = some (.object members))
    (dynamicBody : request.contentType = some "dynamicBody") :
    tcpWire forms h request ≠ some (socketWire h request) := by
  intro same
  have body := socketWire_body (h := h) given
  rw [tcpWire_json (by rw [given,dynamicBody]; rfl),Option.some.injEq] at same
  rw [← same] at body
  exact dynamicBody_ne_object texts members body

/-- The two encoders send the same exactly when the body is sent as the JSON it is. -/
theorem tcpWire_iff {request : Outbound} (texts : JsonTexts h) (files : WithoutFiles request) :
    tcpWire forms h request = some (socketWire h request) ↔ request.body = none ∨ PlainJson h request := by
  cases given : request.body with
  | none => exact iff_of_true (tcpWire_none given) (.inl rfl)
  | some value =>
    simp only [reduceCtorEq,false_or]
    by_cases plaintext : request.contentType = some "plaintext"
    · exact iff_of_false (tcpWire_plaintext given plaintext) fun plain => plain.plaintext plaintext
    by_cases formdata : request.contentType = some "formdata"
    · exact iff_of_false (tcpWire_formdata texts files given formdata) fun plain => plain.formdata formdata
    by_cases dynamic : request.contentType = some "dynamicBody" ∧ ∃ members, value = .object members
    · obtain ⟨dynamicBody,members,rfl⟩ := dynamic
      exact iff_of_false (tcpWire_dynamicBody texts given dynamicBody) fun plain =>
        plain.dynamicBody dynamicBody members given
    have others : request.contentType = some "dynamicBody" → ∀ members, value ≠ .object members :=
      fun declared members same => dynamic ⟨declared,members,same⟩
    rw [tcpWire_json_iff given (given ▸ tcpBody_json plaintext formdata others)]
    constructor
    · intro typed
      exact ⟨plaintext,formdata,fun declared members same =>
        others declared members (Option.some.inj (given.symm.trans same)),typed⟩
    · intro plain
      exact plain.typed

/-- What is sent over the two transports is the same for a request with an invalid header, which is
not sent, one without a body, and one that is sent as the JSON it is. -/
theorem sent_iff {request : Outbound} (texts : JsonTexts h) (files : WithoutFiles request)
    (direct : Direct client net tcpUrl) (socketed : Socketed h client { request with url := socketUrl }) :
    wire forms h client net { request with url := tcpUrl } =
      wire forms h client net { request with url := socketUrl } ↔
    validHeaders (withoutNull h request.headers) = false ∨ request.body = none ∨ PlainJson h request := by
  have one : wire forms h client net { request with url := tcpUrl } = _ := wire_direct direct
  have two : wire forms h client net { request with url := socketUrl } = _ := wire_socketed socketed
  rw [one,two]
  dsimp only
  cases valid : validHeaders (withoutNull h request.headers) with
  | false => simp
  | true =>
    simp only [if_true,Bool.true_eq_false,false_or]
    exact tcpWire_iff texts files

end Requests

section Responses
variable {forms : FormLibrary} {h : Host} {client : OutboundClient} {net : Network} {answer : Answer}

theorem overLimit_upstream : (answer.upstream : Upstream ε).OverLimit limit ↔ answer.OverLimit limit := Iff.rfl

theorem within_of_whole {up : Upstream ε} (head : overDeclared limit (responseHeaders up.headers) = none)
    (body : collectBody limit up.broken up.chunks [] = .ok bytes) : ¬ up.OverLimit limit := by
  rintro ⟨cap,rfl,⟨declared,length,past⟩ | past⟩
  · simp [overDeclared,length,past] at head
  · rw [collectBody_over (Nat.zero_le cap) (by simpa using past)] at body
    cases body

/-- What an exchange over a socket comes to. -/
theorem exchangeSocket_answer (client : OutboundClient) (net : Network) (answer : Answer)
    (request : SocketRequest) :
    (answer.OverLimit client.responseSizeLimit → ∃ e, exchangeSocket client (answer.network net) request = .error e) ∧
    (¬ answer.OverLimit client.responseSizeLimit → exchangeSocket client (answer.network net) request =
      .ok
        { status := answer.status
          body := decodeResponseBody client answer.chunks.flatten (responseHeaders answer.headers)
          headers := responseHeaders answer.headers }) := by
  unfold exchangeSocket
  simp only [Answer.network]
  cases (answer.upstream : Upstream SocketError).reads client.responseSizeLimit with
  | declared beyond head =>
    simp only [head]
    exact ⟨fun _ => ⟨_,rfl⟩,fun within => absurd (overLimit_upstream.mp beyond) within⟩
  | passed beyond head body =>
    simp only [head,body]
    exact ⟨fun _ => ⟨_,rfl⟩,fun within => absurd (overLimit_upstream.mp beyond) within⟩
  | broken within given head body => cases given
  | whole given head body =>
    have within : ¬ answer.OverLimit client.responseSizeLimit := overLimit_upstream.not.mp (within_of_whole head body)
    simp only [head,body]
    exact ⟨fun beyond => absurd beyond within,fun _ => rfl⟩

/-- The head of a response, with the content type that may be forced on it. -/
def forcedHeaders (answer : Answer) (forceJson : Bool) : StringMap String :=
  if forceJson then (responseHeaders answer.headers).insert "content-type" "application/json"
  else responseHeaders answer.headers

theorem overDeclared_forcedHeaders (answer : Answer) (forceJson : Bool) (limit : Option Nat) :
    overDeclared limit (forcedHeaders answer forceJson) = overDeclared limit (responseHeaders answer.headers) := by
  unfold forcedHeaders
  split
  · exact overDeclared_forced _
  · rfl

/-- What an exchange over TCP comes to. -/
theorem exchangeTcp_answer (client : OutboundClient) (net : Network) (answer : Answer) (request : TcpRequest)
    (forceJson : Bool) :
    (answer.OverLimit client.responseSizeLimit →
      ∃ e, exchangeTcp client (answer.network net) request forceJson = .error e) ∧
    (¬ answer.OverLimit client.responseSizeLimit → exchangeTcp client (answer.network net) request forceJson =
      .ok
        { status := answer.status
          body := decodeResponseBody client answer.chunks.flatten (forcedHeaders answer forceJson)
          headers := forcedHeaders answer forceJson }) := by
  have forced := overDeclared_forcedHeaders answer forceJson client.responseSizeLimit
  unfold forcedHeaders at forced
  unfold exchangeTcp
  simp only [Answer.network]
  cases (answer.upstream : Upstream TransportError).reads client.responseSizeLimit with
  | declared beyond head =>
    rw [show (answer.upstream : Upstream TransportError).headers = answer.headers from rfl] at head ⊢
    rw [← forced] at head
    simp only [head]
    exact ⟨fun _ => ⟨_,rfl⟩,fun within => absurd (overLimit_upstream.mp beyond) within⟩
  | passed beyond head body =>
    rw [show (answer.upstream : Upstream TransportError).headers = answer.headers from rfl] at head ⊢
    rw [← forced] at head
    simp only [head,body]
    exact ⟨fun _ => ⟨_,rfl⟩,fun within => absurd (overLimit_upstream.mp beyond) within⟩
  | broken within given head body => cases given
  | whole given head body =>
    have within := within_of_whole head body
    rw [show (answer.upstream : Upstream TransportError).headers = answer.headers from rfl] at head ⊢
    rw [← forced] at head
    simp only [head,body]
    exact ⟨fun beyond => absurd beyond within,fun _ => rfl⟩

/-- The names of a head are those of its headers. -/
theorem responseHeaders_lower {entry : Sigma fun _ : String => String}
    (member : entry ∈ (responseHeaders answer.headers).entries) : Text.toAsciiLowercase entry.1 = entry.1 := by
  have key : entry.1 ∈ responseHeaders answer.headers := List.mem_map_of_mem member
  unfold responseHeaders at key
  rcases Assoc.mem_foldl_insert.mp key with impossible | ⟨header,listed,same⟩
  · exact absurd impossible (AList.notMem_empty _)
  · rw [← same]
    exact answer.lowercase header listed

theorem decodeResponseBody_eq {headers : StringMap String} (bytes : List UInt8)
    (lower : ∀ entry ∈ headers.entries, Text.toAsciiLowercase entry.1 = entry.1) :
    decodeResponseBody client bytes headers =
      if bytes.isEmpty then some (.string "")
      else if contentTypeIsJson ((headers.lookup "content-type").getD "") then
        some ((client.parseJson bytes).getD (.string (client.utf8Lossy bytes)))
      else some (.string (client.utf8Lossy bytes)) := by
  unfold decodeResponseBody
  rw [Assoc.find?_entries fun entry member => eqIgnoreAsciiCase_lowered (lower entry member)]

/-- The forced content type is no change when the response has it. -/
theorem forcedHeaders_lookup (own : (responseHeaders answer.headers).lookup "content-type" = some "application/json")
    (forceJson : Bool) (name : String) :
    (forcedHeaders answer forceJson).lookup name = (responseHeaders answer.headers).lookup name := by
  unfold forcedHeaders
  split
  · by_cases same : name = "content-type"
    · rw [same,AList.lookup_insert,own]
    · rw [AList.lookup_insert_ne same]
  · rfl

theorem forcedHeaders_lower (forceJson : Bool) :
    ∀ entry ∈ (forcedHeaders answer forceJson).entries, Text.toAsciiLowercase entry.1 = entry.1 := by
  intro entry member
  unfold forcedHeaders at member
  split at member
  · rw [AList.entries_insert,List.mem_cons] at member
    rcases member with rfl | kept
    · decide
    · exact responseHeaders_lower ((List.kerase_sublist _ _).subset kept)
  · exact responseHeaders_lower member

/-- The results are the same unless a content type is forced that the response does not have. -/
theorem sameResult_iff (net : Network) (tcp : TcpRequest) (socket : SocketRequest) (forceJson : Bool) :
    SameResult client.responseSizeLimit answer (exchangeTcp client (answer.network net) tcp forceJson)
      (exchangeSocket client (answer.network net) socket) ↔
    (forceJson = true → answer.OverLimit client.responseSizeLimit ∨
      (responseHeaders answer.headers).lookup "content-type" = some "application/json") := by
  obtain ⟨tcpOver,tcpWithin⟩ := exchangeTcp_answer client net answer tcp forceJson
  obtain ⟨socketOver,socketWithin⟩ := exchangeSocket_answer client net answer socket
  constructor
  · intro same forced
    by_contra apart
    rw [not_or] at apart
    obtain ⟨one,two,first,second,_,headers,_⟩ := same.within apart.1
    cases (tcpWithin apart.1).symm.trans first
    cases (socketWithin apart.1).symm.trans second
    have type := headers "content-type"
    simp only [forcedHeaders,forced,if_true,AList.lookup_insert] at type
    exact apart.2 type.symm
  · intro unforced
    refine ⟨fun beyond => ⟨tcpOver beyond,socketOver beyond⟩,?_⟩
    intro within
    have lookups : ∀ name, (forcedHeaders answer forceJson).lookup name =
        (responseHeaders answer.headers).lookup name := by
      cases forceJson with
      | false => exact fun _ => rfl
      | true => exact forcedHeaders_lookup ((unforced rfl).resolve_left within) true
    refine ⟨_,_,tcpWithin within,socketWithin within,rfl,lookups,?_,rfl,rfl⟩
    dsimp only
    rw [decodeResponseBody_eq _ (forcedHeaders_lower forceJson),
      decodeResponseBody_eq _ fun _ member => responseHeaders_lower member,lookups]

/-- What is sent of a request comes from what it is encoded as. -/
theorem encoded_of_wire (sent : (wire forms h client net request).isSome = true) :
    ∃ encoded, encode h client net request = .ok encoded := by
  unfold wire at sent
  cases result : encode h client net request with
  | ok encoded => exact ⟨encoded,rfl⟩
  | error e =>
    rw [result] at sent
    cases sent

theorem encode_network (request : Outbound) :
    encode h client (answer.network net) request = encode h client net request := rfl

/-- A request over TCP is encoded with the content type that is forced on its response. -/
theorem encode_direct (direct : Direct client net request.url) (ok : encode h client net request = .ok encoded) :
    ∃ tcp, encoded = .tcp tcp (request.contentType = some "json_override") := by
  rw [encode_eq,direct.1] at ok
  unfold encodeTcp at ok
  obtain ⟨_,_,ok⟩ := Eff.except_bind_inv ok
  obtain ⟨_,_,ok⟩ := Eff.except_bind_inv ok
  obtain ⟨_,_,ok⟩ := Eff.except_bind_inv ok
  cases ok
  exact ⟨_,rfl⟩

theorem encode_socketed (socketed : Socketed h client request) (ok : encode h client net request = .ok encoded) :
    ∃ socket, encoded = .socket socket := by
  obtain ⟨socket,host,base,target,_⟩ := socketed
  rw [encode_eq,target] at ok
  obtain ⟨_,same,ok⟩ := Eff.except_bind_inv ok
  cases same
  obtain ⟨sent,_,ok⟩ := Eff.except_bind_inv ok
  cases ok
  exact ⟨sent,rfl⟩

theorem transmit_iff {request : Outbound} (direct : Direct client net tcpUrl)
    (socketed : Socketed h client { request with url := socketUrl })
    (first : (wire forms h client net { request with url := tcpUrl }).isSome = true)
    (second : (wire forms h client net { request with url := socketUrl }).isSome = true) :
    SameResult client.responseSizeLimit answer
      (transmit h client (answer.network net) { request with url := tcpUrl })
      (transmit h client (answer.network net) { request with url := socketUrl }) ↔
    Unforced client.responseSizeLimit request answer := by
  obtain ⟨one,encodedOne⟩ := encoded_of_wire first
  obtain ⟨two,encodedTwo⟩ := encoded_of_wire second
  obtain ⟨tcp,rfl⟩ := encode_direct direct encodedOne
  obtain ⟨socket,rfl⟩ := encode_socketed socketed encodedTwo
  rw [transmit_eq ((encode_network _).trans encodedOne),transmit_eq ((encode_network _).trans encodedTwo)]
  refine (sameResult_iff net tcp socket _).trans ?_
  simp only [decide_eq_true_eq,Unforced]

/-- The exchange is the same over TCP and over a socket exactly when the request is not sent for an
invalid header, or has no body or goes out as the JSON it is, and its response is not forced. -/
theorem transportParity_iff (forms : FormLibrary) (h : Host) (texts : JsonTexts h) (client : OutboundClient)
    (net : Network) (request : Outbound) (tcpUrl socketUrl : String) (answer : Answer)
    (files : WithoutFiles request) (direct : Direct client net tcpUrl)
    (socketed : Socketed h client { request with url := socketUrl }) :
    TransportParity forms h client net request tcpUrl socketUrl answer ↔
      validHeaders (withoutNull h request.headers) = false ∨
        (request.body = none ∨ PlainJson h request) ∧ Unforced client.responseSizeLimit request answer := by
  have one : wire forms h client net { request with url := tcpUrl } = _ := wire_direct direct
  have two : wire forms h client net { request with url := socketUrl } = _ := wire_socketed socketed
  have sent : wire forms h client net { request with url := tcpUrl } = _ ↔ _ := sent_iff texts files direct socketed
  constructor
  · intro parity
    rcases sent.mp parity.sent with invalid | plain
    · exact .inl invalid
    · cases valid : validHeaders (withoutNull h request.headers) with
      | false => exact .inl rfl
      | true =>
        have second : (wire forms h client net { request with url := socketUrl }).isSome = true := by
          rw [two]
          dsimp only
          rw [valid]
          rfl
        have first : (wire forms h client net { request with url := tcpUrl }).isSome = true := by
          rw [parity.sent]
          exact second
        exact .inr ⟨plain,(transmit_iff direct socketed first second).mp (parity.answered first second)⟩
  · rintro (invalid | ⟨plain,unforced⟩)
    · refine ⟨sent.mpr (.inl invalid),?_⟩
      intro first
      rw [one] at first
      dsimp only at first
      rw [invalid] at first
      cases first
    · exact ⟨sent.mpr (.inr plain),fun first second => (transmit_iff direct socketed first second).mpr unforced⟩

end Responses

section Plain

def plainForms : FormLibrary where
  encode _ := ""
  contentTypes _ := ["application/x-www-form-urlencoded"]
  escaped _ := by decide

theorem compact_member {members : List (String × Json)} (member : (name,value) ∈ members) :
    (compact value).length ≤ (compactMembers members).length := by
  induction members with
  | nil => cases member
  | cons head rest ih =>
    obtain ⟨other,first⟩ := head
    simp only [compactMembers,String.length_append]
    rcases List.mem_cons.mp member with same | later
    · cases same
      omega
    · have bound := ih later
      omega

theorem plain_jsonTexts : JsonTexts plainHost where
  null := rfl
  object members := by
    simp [plainHost,compact]
  member members name value inside := by
    have bound := compact_member inside
    simp only [plainHost,compact,String.length_append]
    have brace : "\x7b".length = 1 := rfl
    omega

/-- A client without a policy of its own. -/
def openClient : OutboundClient where
  blockPrivateNetworks := false

/-- An answer whose body comes in two chunks. -/
def createdAnswer : Answer where
  status := 201
  headers := [("content-type",some ⟨"application/json",by decide⟩),("etag",some ⟨"v1",by decide⟩)]
  chunks := [utf8 "\x7b\"id\":",utf8 "7\x7d"]
  lowercase := by decide

/-- A request with a body. -/
def posting (body : Json) (contentType : Option String) (headers : Option (StringMap Json) := none) :
    Outbound where
  method := "POST"
  url := ""
  body := some body
  query := none
  headers
  timeout := none
  contentType

theorem open_direct : Direct openClient absentSidecar "http://sidecar/" :=
  ⟨rfl,.noPinning,rfl,rfl⟩

theorem open_socketed (body : Json) (contentType : Option String) (headers : Option (StringMap Json)) :
    Socketed plainHost openClient { posting body contentType headers with url := "unix:///s.sock/" } := by
  have target : socketTarget openClient "unix:///s.sock/" = some (.ok ("/s.sock","localhost","/")) := by
    rfl
  exact ⟨_,_,_,target,rfl⟩

/-- A person to be stored, with a token. -/
def storing : Outbound :=
  posting (.object [("name",.string "Ada")]) none (some (AList.insert "authorization" (.string "Bearer t") ∅))

theorem json_transportParity :
    wire plainForms plainHost openClient absentSidecar { storing with url := "http://sidecar/" } =
        some ⟨utf8 "\x7b\"name\":\"Ada\"\x7d",["application/json"]⟩ ∧
      TransportParity plainForms plainHost openClient absentSidecar storing "http://sidecar/" "unix:///s.sock/"
        createdAnswer := by
  constructor
  · rw [wire_direct open_direct]
    rfl
  · have files : WithoutFiles storing := fun impossible => by cases impossible
    have plain : PlainJson plainHost storing :=
      ⟨by decide,by decide,fun impossible => (by cases impossible),fun untyped => (by cases untyped.1)⟩
    apply (transportParity_iff plainForms plainHost plain_jsonTexts openClient absentSidecar _ _ _ createdAnswer
      files open_direct (open_socketed _ _ _)).mpr
    exact .inr ⟨.inr plain,fun impossible => by cases impossible⟩

/-- A plain text goes out as it is over TCP, and as JSON over a socket. -/
theorem plaintext_transports_differ :
    wire plainForms plainHost openClient absentSidecar
      { posting (.string "hi") (some "plaintext") with url := "http://sidecar/" } =
        some ⟨utf8 "hi",["text/plain"]⟩ ∧
    wire plainForms plainHost openClient absentSidecar
      { posting (.string "hi") (some "plaintext") with url := "unix:///s.sock/" } =
        some ⟨utf8 "\"hi\"",["application/json"]⟩ ∧
    ¬ TransportParity plainForms plainHost openClient absentSidecar (posting (.string "hi") (some "plaintext"))
      "http://sidecar/" "unix:///s.sock/" createdAnswer := by
  have tcp : wire plainForms plainHost openClient absentSidecar
      { posting (.string "hi") (some "plaintext") with url := "http://sidecar/" } =
        some ⟨utf8 "hi",["text/plain"]⟩ := by
    rw [wire_direct open_direct]
    rfl
  have socket : wire plainForms plainHost openClient absentSidecar
      { posting (.string "hi") (some "plaintext") with url := "unix:///s.sock/" } =
        some ⟨utf8 "\"hi\"",["application/json"]⟩ := by
    rw [wire_socketed (open_socketed _ _ _)]
    rfl
  refine ⟨tcp,socket,?_⟩
  intro parity
  have same := parity.sent
  rw [tcp,socket] at same
  cases same

end Plain
end Ruuter
