import Ruuter.Outbound
import Ruuter.Lib.Multimap

/-! The pass-through proxy (`src/router/proxy.rs`): the checks in front of a proxied request, the
headers that go to the upstream and come back, and the semaphore of a route. -/
namespace Ruuter.Proxy
open Multimap

/-- A header name: a token in lower case. -/
structure HeaderName where
  text : String
  token : headerName text = some text
deriving DecidableEq

/-- The bytes `HeaderValue::from_bytes` accepts. -/
def isHeaderByte (b : UInt8) : Bool := (32 ≤ b && b ≠ 127) || b = 9

structure HeaderValue where
  bytes : List UInt8
  valid : bytes.all isHeaderByte = true
deriving DecidableEq

/-- The headers of a message, in the order in which `HeaderMap` yields them. -/
abbrev HeaderMap := List (HeaderName × HeaderValue)

namespace HeaderValue

def tryFrom (text : String) : Option HeaderValue :=
  if valid : text.toUTF8.toList.all isHeaderByte = true then some ⟨text.toUTF8.toList,valid⟩ else none

/-- The bytes as characters of the same number. -/
def text (v : HeaderValue) : String := String.ofList (v.bytes.map fun b => Char.ofNat b.toNat)

/-- `HeaderValue::to_str`: visible ASCII and the tab only. -/
def toStr (v : HeaderValue) : Option String :=
  if v.bytes.all fun b => (32 ≤ b && b < 127) || b = 9 then some v.text else none

end HeaderValue

def connection : HeaderName := ⟨"connection",rfl⟩
def contentEncoding : HeaderName := ⟨"content-encoding",rfl⟩
def contentLength : HeaderName := ⟨"content-length",rfl⟩
def contentTypeName : HeaderName := ⟨"content-type",rfl⟩
def traceparentName : HeaderName := ⟨"traceparent",rfl⟩

def hopByHopRequest : List String :=
  ["connection","keep-alive","proxy-authenticate","proxy-authorization","te","trailer",
    "transfer-encoding","upgrade","host","expect"]

def hopByHopResponse : List String :=
  ["connection","keep-alive","proxy-authenticate","proxy-authorization","te","trailer",
    "transfer-encoding","upgrade"]

/-- The items of a comma list. -/
def listItems (text : String) : List String := ((Text.split text ',').map Text.trim).filter (· ≠ "")

/-- The names the `Connection` header lists. -/
def dynamicHop (inbound : HeaderMap) : List String :=
  match (get inbound connection).bind HeaderValue.toStr with
  | some conn => (listItems conn).map Text.toAsciiLowercase
  | none => []

/-- The headers that the copy loops do not skip. -/
def endToEnd (static : List String) (inbound : HeaderMap) : HeaderMap :=
  inbound.filter fun header =>
    let n := Text.toAsciiLowercase header.1.text
    !static.contains n && !(dynamicHop inbound).contains n

def buildForwardRequestHeaders (inbound : HeaderMap) (preserveHeaders : Bool) (traceparent : String) :
    HeaderMap :=
  let out :=
    if preserveHeaders then insertAll [] (endToEnd hopByHopRequest inbound)
    else
      let out := ((get inbound contentTypeName).map (insert [] contentTypeName)).getD []
      ((get inbound contentLength).map (insert out contentLength)).getD out
  match HeaderValue.tryFrom traceparent with
  | some value => insert out traceparentName value
  | none => out

/-- The names and values of a header map are valid again. -/
def stripResponseHopByHop (inbound : HeaderMap) : HeaderMap :=
  insertAll [] (endToEnd hopByHopResponse inbound)

/-- The headers of the response to the client. -/
def responseHeaders (upstream : HeaderMap) : HeaderMap := insertAll [] (stripResponseHopByHop upstream)

/-- Why a gate of the proxy refuses a request, or the upstream did not answer. -/
inductive Rejection
  | bodyTooLarge (declared cap : Nat)
  | unsupportedEncoding (seen : String) (allowed : List String)
  | upstreamRejected (reason : String)
  | capacityExceeded (cap : Nat)
  | transportError (kind detail : String)

def Rejection.response : Rejection → Response
  | .bodyTooLarge declared cap => jsonResponse 413 (.object
      [("cap",.ofNat cap),("declared",.ofNat declared),("error",.string "proxy_body_too_large"),
        ("message",.string ("declared Content-Length " ++ toString declared ++
          " exceeds proxy route cap " ++ toString cap))])
  | .unsupportedEncoding seen allowed => jsonResponse 415 (.object
      [("allowed",.array (allowed.map .string)),("error",.string "proxy_unsupported_encoding"),
        ("message",.string ("Content-Encoding '" ++ seen ++ "' not permitted; allowed: " ++
          ", ".intercalate allowed)),("seen",.string seen)])
  | .upstreamRejected reason => jsonResponse 502 (.object
      [("error",.string "proxy_upstream_rejected"),("message",.string reason)])
  | .capacityExceeded cap => (jsonResponse 503 (.object
      [("cap",.ofNat cap),("error",.string "proxy_capacity_exceeded"),
        ("message",.string "proxy route in-flight concurrency cap reached")])).insertHeader "retry-after" "1"
  | .transportError kind detail => jsonResponse 502 (.object
      [("error",.string "proxy_transport_error"),("kind",.string kind),("message",.string detail)])

/-- The head of an inbound request. -/
structure Parts where
  method : String
  query : Option String := none
  headers : HeaderMap := []

/-- The check of the declared length. -/
def preflight (decl : ProxyDeclaration) (parts : Parts) : Except Rejection Unit :=
  match ((get parts.headers contentLength).bind HeaderValue.toStr).bind Text.parseU64 with
  | some cl => if decl.maxBodyBytes.toNat < cl then .error (.bodyTooLarge cl decl.maxBodyBytes.toNat) else .ok ()
  | none => .ok ()

def encodingAllowed (allowed : List String) (entry : String) : Bool :=
  allowed.any (eqIgnoreAsciiCase · (Text.toAsciiLowercase entry))

/-- The allowlist of `Content-Encoding`. -/
def checkEncoding (decl : ProxyDeclaration) (parts : Parts) : Except Rejection Unit :=
  let raw := ((get parts.headers contentEncoding).bind HeaderValue.toStr).getD "identity"
  match (listItems raw).find? (!encodingAllowed decl.allowedEncodings ·) with
  | some entry => .error (.unsupportedEncoding entry decl.allowedEncodings)
  | none => .ok ()

/-- `tokio::sync::Semaphore`, with the number of permits it was made with. -/
structure Semaphore where
  capacity : Nat
  available : Nat

def semaphoreForRoute (semaphores : StringMap Semaphore) (key : String) (cap : Option UInt32) :
    Option (Semaphore × StringMap Semaphore) :=
  cap.map fun cap =>
    match semaphores.lookup key with
    | some semaphore => (semaphore,semaphores)
    | none => (⟨cap.toNat,cap.toNat⟩,semaphores.insert key ⟨cap.toNat,cap.toNat⟩)

/-- The permit of a request: none without a cap, else one of the route's semaphore. -/
def acquire (semaphores : StringMap Semaphore) (key : String) (cap : Option UInt32) :
    Except Rejection Bool × StringMap Semaphore :=
  match semaphoreForRoute semaphores key cap with
  | none => (.ok false,semaphores)
  | some (semaphore,semaphores) =>
    if semaphore.available = 0 then (.error (.capacityExceeded ((cap.map (·.toNat)).getD 0)),semaphores)
    else (.ok true,semaphores.insert key { semaphore with available := semaphore.available - 1 })

/-- The drop of a permit. -/
def release (semaphores : StringMap Semaphore) (key : String) (permit : Bool) : StringMap Semaphore :=
  match permit, semaphores.lookup key with
  | true, some semaphore => semaphores.insert key { semaphore with available := semaphore.available + 1 }
  | _, _ => semaphores

def mergeQuery (upstream : String) (inboundQuery : Option String) : String :=
  match inboundQuery with
  | some q => if q = "" then upstream else upstream ++ (if upstream.toList.contains '?' then "&" else "?") ++ q
  | none => upstream

/-- A request on its way to the upstream. -/
structure Forwarded where
  resolution : SsrfResolution
  method : String
  url : String
  headers : HeaderMap
  permit : Bool

section Forward
variable (client : OutboundClient) (net : Network)

/-- `client_for`. -/
def clientFor : SsrfResolution → Except RuuterError Unit
  | .noPinning => .ok ()
  | .pinned host _ =>
    match net.pinningError host with
    | some e => .error (.httpRequest ("proxy DNS-pinned client build failed for '" ++ host ++ "': " ++ e))
    | none => .ok ()

/-- The checks before a permit is asked for. -/
def gate (decl : ProxyDeclaration) (parts : Parts) : Except Rejection SsrfResolution := do
  preflight decl parts
  checkEncoding decl parts
  match checkSsrf client net.lookupHost decl.upstream with
  | .ok resolution => .ok resolution
  | .error e => .error (.upstreamRejected e.text)

/-- `ProxyClient::forward` up to the send. -/
def forward (decl : ProxyDeclaration) (routeKey traceparent : String) (parts : Parts)
    (semaphores : StringMap Semaphore) : Except Rejection Forwarded × StringMap Semaphore :=
  match gate client net decl parts with
  | .error e => (.error e,semaphores)
  | .ok resolution =>
    match acquire semaphores routeKey decl.maxInFlight with
    | (.error e,semaphores) => (.error e,semaphores)
    | (.ok permit,semaphores) =>
      match clientFor net resolution with
      | .error e => (.error (.upstreamRejected e.text),release semaphores routeKey permit)
      | .ok () =>
        (.ok
          { resolution
            method := parts.method
            url := mergeQuery decl.upstream parts.query
            headers := buildForwardRequestHeaders parts.headers decl.preserveHeaders traceparent
            permit },semaphores)

end Forward
end Ruuter.Proxy
