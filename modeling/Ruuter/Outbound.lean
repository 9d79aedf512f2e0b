import Ruuter.Ssrf

/-! The transports of `HttpClient::request_with_ct` (`src/http_client`): how a request is encoded
for TCP and for a Unix socket, and what becomes of the answer. -/
namespace Ruuter

/-- `reqwest::Error`, with its text and that of its causes. -/
structure TransportError where
  isTimeout : Bool := false
  isConnect : Bool := false
  isRequest : Bool := false
  isBody : Bool := false
  isDecode : Bool := false
  message : String := ""

def classifyTransportError (e : TransportError) : String :=
  if e.isTimeout then "timeout"
  else if e.isConnect then "connect"
  else if e.isRequest then "request"
  else if e.isBody then "body"
  else if e.isDecode then "decode"
  else "unknown"

/-- The response that stands for a transport failure. -/
def transportStub (e : TransportError) : HttpResponse where
  status := 0
  body := some (.object
    [("error",.string (classifyTransportError e)),("message",.string e.message)])
  error := some (classifyTransportError e)

/-- Why a request over a Unix socket came to nothing. -/
inductive SocketError
  | timedOut
  | failed (message : String)

/-- A part of a multipart form. -/
inductive Part
  | file (field filename content : String)
  | text (field content : String)

/-- The body of a request over TCP. `json` and `form` set their content type in the library. -/
inductive TcpBody
  | empty
  | json (value : Json)
  | text (content : String)
  | form (fields : List (String × String))
  | multipart (parts : List Part)

structure TcpRequest where
  resolution : SsrfResolution
  method : String
  url : String
  timeout : UInt64
  query : List (String × String)
  headers : List (String × String)
  body : TcpBody

structure SocketRequest where
  socket : String
  host : String
  method : String
  /-- The path, with the query of the URL. -/
  base : String
  query : List (String × String)
  headers : List (String × String)
  body : Option String
  timeout : UInt64

/-- A response as it arrives: the head, the chunks of the body, and what breaks it off. -/
structure Upstream (ε : Type) where
  status : UInt16
  headers : List (String × Option HeaderText) := []
  chunks : List (List UInt8) := []
  broken : Option ε := none

/-- The network at one moment. -/
structure Network where
  lookupHost : String → Except String (List SocketAddr) := fun _ => .ok []
  /-- Why no client can be built for a pinned host. -/
  pinningError : String → Option String := fun _ => none
  tcp : TcpRequest → Except TransportError (Upstream TransportError)
  socket : SocketRequest → Except SocketError (Upstream SocketError)

/-- A request that passed every check and was encoded. -/
inductive Encoded
  | tcp (request : TcpRequest) (forceJson : Bool)
  | socket (request : SocketRequest)

section Encoders
variable (h : Host)

/-- The entries of a map as the encoders write them: null is left out. -/
def withoutNull (map : Option (StringMap Json)) : List (String × String) :=
  ((map.getD ∅).entries.filter (!·.2.isNull)).map fun entry => (entry.1,jsonToString h entry.2)

/-- The entries of a query as `merge_query_params` writes them. -/
def queryTexts (map : Option (StringMap Json)) : List (String × String) :=
  (map.getD ∅).entries.map fun entry => (entry.1,jsonToString h entry.2)

def percentDigit (n : Nat) : Char := if n < 10 then Char.ofNat (48 + n) else Char.ofNat (55 + n)

/-- A byte of a query: as it is, or as `%XX`. -/
def encodeByte (b : UInt8) : List Char :=
  let c := Char.ofNat b.toNat
  if b < 128 ∧ (c.isAlphanum ∨ c ∈ ['-','_','.','~']) then [c]
  else ['%',percentDigit (b.toNat / 16),percentDigit (b.toNat % 16)]

def urlencodingEncode (s : String) : String := String.ofList (s.toUTF8.toList.flatMap encodeByte)

def mergeQueryParams (base : String) (pairs : List (String × String)) : String :=
  if pairs.isEmpty then base
  else
    let parts := pairs.map fun pair => urlencodingEncode pair.1 ++ "=" ++ urlencodingEncode pair.2
    base ++ (if base.toList.contains '?' then "&" else "?") ++ "&".intercalate parts

/-- The request target. -/
def SocketRequest.pathAndQuery (request : SocketRequest) : String :=
  mergeQueryParams request.base request.query

/-- The members of a form. -/
def formField (member : String × Json) : String × String := (member.1,jsonToString h member.2)

def formPart (member : String × Json) : Part :=
  match Text.stripPrefix member.1 "file:" with
  | none => .text member.1 (jsonToString h member.2)
  | some rest =>
    let content := member.2.asStr?.getD ""
    match rest.toList.span (· ≠ ':') with
    | (field,_ :: filename) => .file (String.ofList field) (String.ofList filename) content
    | (_,[]) => .file rest rest content

/-- The text of a `plaintext` body. -/
def plaintextOf : Json → String
  | .object members =>
    (((members.lookup "text").or (members.lookup "plaintext")).bind Json.asStr?).getD
      (h.jsonText (.object members))
  | .string text => text
  | .null => ""
  | other => h.jsonText other

/-- The body by `content_type:`, with the header it adds. -/
def tcpBody (contentType : Option String) (body : Option Json) :
    Except RuuterError (List (String × String) × TcpBody) :=
  match body with
  | none => .ok ([],.empty)
  | some value =>
    match contentType with
    | some "plaintext" => .ok ([("content-type","text/plain")],.text (plaintextOf h value))
    | some "formdata" =>
      match value with
      | .object members =>
        if members.any (Text.startsWith ·.1 "file:") then .ok ([],.multipart (members.map (formPart h)))
        else .ok ([],.form (members.map (formField h)))
      | _ => .error (.httpRequest "content_type: formdata requires body to be an object")
    | some "dynamicBody" =>
      match value with
      | .object members => .ok ([],.json ((members.lookup "dynamicBody").getD .null))
      | other => .ok ([],.json other)
    | _ => .ok ([],.json value)

/-- `http::request::Builder`: the first header that is not valid fails the request. -/
def checkHeaders : List (String × String) → Except RuuterError Unit
  | [] => .ok ()
  | (name,value) :: rest =>
    if (headerName name).isNone then
      .error (.httpRequest "build uds request: invalid HTTP header name")
    else if (headerValue value).isNone then
      .error (.httpRequest "build uds request: failed to parse header value")
    else checkHeaders rest

end Encoders

/-- The part of a text up to the end of the first occurrence of a marker, and what follows. -/
def splitAfter (marker : List Char) : List Char → Option (List Char × List Char)
  | [] => none
  | c :: rest =>
    if marker.isPrefixOf (c :: rest) then some (marker,(c :: rest).drop marker.length)
    else (splitAfter marker rest).map fun (before,after) => (c :: before,after)

def parseUnixUrl (url : String) : Except RuuterError (String × String) :=
  match Text.stripPrefix url "unix://" with
  | none => .error (.httpRequest ("not a unix:// URL: " ++ url))
  | some rest =>
    if !Text.startsWith rest "/" then
      .error (.httpRequest ("unix:// URL missing leading / after scheme: " ++ url))
    else
      match [".socket",".sock"].findSome? fun marker => splitAfter marker.toList rest.toList with
      | some (socket,tail) =>
        .ok (String.ofList socket,if tail.isEmpty then "/" else String.ofList tail)
      | none =>
        match rest.toList.tail.span (· ≠ '/') with
        | (socket,'/' :: tail) => .ok ("/" ++ String.ofList socket,String.ofList ('/' :: tail))
        | _ => .ok (rest,"/")

section Client
variable (h : Host) (client : OutboundClient) (net : Network)

def hostAliasLookup (url : String) : Option String :=
  if client.unixSocketMap.keys.isEmpty then none
  else
    match client.parseUrl url with
    | .error _ => none
    | .ok parsed => parsed.host.bind client.unixSocketMap.lookup

/-- The first half of `request_over_unix_pooled`, up to the send. -/
def encodeSocket (socket host base : String) (request : Outbound) : Except RuuterError SocketRequest := do
  let body := request.body.map h.jsonText
  let named (name : String) : Bool := ((request.headers.getD ∅).keys).any (eqIgnoreAsciiCase · name)
  let framing : List (String × String) :=
    match body with
    | none => []
    | some text =>
      (if named "content-length" then [] else [("content-length",toString text.utf8ByteSize)]) ++
      (if named "content-type" then [] else [("content-type","application/json")])
  let encoded : SocketRequest :=
    { socket
      host
      method := request.method
      base
      query := queryTexts h request.query
      headers := withoutNull h request.headers ++ framing
      body
      timeout := request.timeout.getD client.defaultTimeout }
  match client.uriError ("http://" ++ host ++ encoded.pathAndQuery) with
  | some e => .error (.httpRequest ("build uds uri: " ++ e))
  | none =>
    checkHeaders encoded.headers
    .ok encoded

/-- `build_pinned_client`. -/
def buildPinnedClient : SsrfResolution → Except RuuterError Unit
  | .noPinning => .ok ()
  | .pinned host _ =>
    match net.pinningError host with
    | some e => .error (.httpRequest ("failed to build DNS-pinned client for '" ++ host ++ "': " ++ e))
    | none => .ok ()

def encodeTcp (request : Outbound) : Except RuuterError Encoded := do
  let resolution ← checkSsrf client net.lookupHost request.url
  buildPinnedClient net resolution
  let (extra,body) ← tcpBody h request.contentType request.body
  pure (.tcp
    { resolution
      method := request.method
      url := request.url
      timeout := request.timeout.getD client.defaultTimeout
      query := withoutNull h request.query
      headers := withoutNull h request.headers ++ extra
      body } (request.contentType = some "json_override"))

/-- `request_with_ct` behind the self-call, up to the send: the transport is chosen by the URL. -/
def encode (request : Outbound) : Except RuuterError Encoded :=
  if Text.startsWith request.url "unix://" then do
    let (socket,base) ← parseUnixUrl request.url
    let encoded ← encodeSocket h client socket "localhost" base request
    pure (.socket encoded)
  else
    match hostAliasLookup client request.url with
    | none => encodeTcp h client net request
    | some socket =>
      match client.parseUrl request.url with
      | .error e => .error (.httpRequest ("invalid aliased url '" ++ request.url ++ "': " ++ e))
      | .ok parsed => do
        let encoded ← encodeSocket h client socket (parsed.host.getD "localhost") (reqUrlPathQuery parsed) request
        pure (.socket encoded)

/-- The head of a response as a map: a value that is no text becomes empty. -/
def responseHeaders (headers : List (String × Option HeaderText)) : StringMap String :=
  headers.foldl (fun map header => map.insert header.1 ((header.2.map (·.text)).getD "")) ∅

def contentTypeIsJson (contentType : String) : Bool :=
  let mime := Text.toAsciiLowercase (mimeOf contentType)
  mime == "application/json" ||
    ((Text.stripPrefix mime "application/").map (Text.endsWith · "+json")).getD false

def decodeResponseBody (bytes : List UInt8) (headers : StringMap String) : Option Json :=
  if bytes.isEmpty then some (.string "")
  else
    let contentType := ((headers.entries.find? fun entry =>
      eqIgnoreAsciiCase entry.1 "content-type").map (·.2)).getD ""
    if contentTypeIsJson contentType then some ((client.parseJson bytes).getD (.string (client.utf8Lossy bytes)))
    else some (.string (client.utf8Lossy bytes))

/-- The length a response declares, when it is over the limit. -/
def overDeclared (limit : Option Nat) (headers : StringMap String) : Option (Nat × Nat) :=
  limit.bind fun cap => ((headers.lookup "content-length").bind Text.parseU64).bind fun declared =>
    if cap < declared then some (declared,cap) else none

/-- The body of a response, chunk by chunk: the bytes, the error that breaks it off, or the
limit that a chunk passes. -/
def collectBody (limit : Option Nat) (broken : Option ε) :
    List (List UInt8) → List UInt8 → Except (ε ⊕ Nat) (List UInt8)
  | [], read =>
    match broken with
    | some e => .error (.inl e)
    | none => .ok read
  | chunk :: rest, read =>
    match limit with
    | some cap =>
      if cap < read.length + chunk.length then .error (.inr cap)
      else collectBody limit broken rest (read ++ chunk)
    | none => collectBody limit broken rest (read ++ chunk)

/-- The TCP half of `request_with_ct` from the send on. -/
def exchangeTcp (request : TcpRequest) (forceJson : Bool) : Except RuuterError HttpResponse :=
  match net.tcp request with
  | .error e => .ok (transportStub e)
  | .ok up =>
    let own := responseHeaders up.headers
    let headers := if forceJson then own.insert "content-type" "application/json" else own
    match overDeclared client.responseSizeLimit headers with
    | some (declared,cap) =>
      .error (.httpRequest ("upstream response body " ++ toString declared ++
        " bytes exceeds http_response_size_limit " ++ toString cap))
    | none =>
      match collectBody client.responseSizeLimit up.broken up.chunks [] with
      | .error (.inl e) => .ok (transportStub e)
      | .error (.inr cap) =>
        .error (.httpRequest ("upstream response body exceeded http_response_size_limit " ++ toString cap))
      | .ok bytes => .ok { status := up.status, body := decodeResponseBody client bytes headers, headers }

/-- What a failed wait on a socket is reported as. -/
def SocketError.raise (timeout : UInt64) (late failed : String) : SocketError → RuuterError
  | .timedOut => .timeout (late ++ client.durationDebug timeout)
  | .failed message => .httpRequest (failed ++ message)

/-- `request_over_unix_pooled` from the send on. -/
def exchangeSocket (request : SocketRequest) : Except RuuterError HttpResponse :=
  match net.socket request with
  | .error e => .error (e.raise client request.timeout "uds request exceeded " "uds send (pooled): ")
  | .ok up =>
    let headers := responseHeaders up.headers
    match overDeclared client.responseSizeLimit headers with
    | some (declared,cap) =>
      .error (.httpRequest ("uds upstream declared body " ++ toString declared ++
        " bytes exceeds http_response_size_limit " ++ toString cap))
    | none =>
      match collectBody client.responseSizeLimit up.broken up.chunks [] with
      | .error (.inl e) => .error (e.raise client request.timeout "uds body exceeded " "uds body (pooled): ")
      | .error (.inr cap) =>
        .error (.httpRequest ("uds upstream response body exceeded http_response_size_limit " ++ toString cap))
      | .ok bytes => .ok { status := up.status, body := decodeResponseBody client bytes headers, headers }

def exchange : Encoded → Except RuuterError HttpResponse
  | .tcp request forceJson => exchangeTcp client net request forceJson
  | .socket request => exchangeSocket client net request

/-- `request_with_ct` behind the self-call. -/
def transmit (request : Outbound) : Except RuuterError HttpResponse := do
  let encoded ← encode h client net request
  exchange client net encoded

end Client
end Ruuter
