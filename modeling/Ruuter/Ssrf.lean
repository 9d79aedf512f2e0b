import Ruuter.SelfCall

/-! The outbound policy (`check_ssrf` in `src/http_client/mod.rs`): the URL and address
allow-lists and the block on private networks. -/
namespace Ruuter

inductive IpAddr
  | v4 (a b c d : UInt8)
  | v6 (segments : Vector UInt16 8)
deriving DecidableEq

structure SocketAddr where
  ip : IpAddr
  port : UInt16

/-- The addresses of version 4 that `is_private_or_local` refuses. -/
def isPrivateV4 (a b c d : UInt8) : Bool :=
  a == 127 || (a == 169 && b == 254) || (a == 0 && b == 0 && c == 0 && d == 0) ||
    (a == 255 && b == 255 && c == 255 && d == 255) || a == 10 || (a == 172 && 16 ≤ b && b ≤ 31) ||
    (a == 192 && b == 168) || (a == 100 && 64 ≤ b && b ≤ 127)

/-- `Ipv6Addr::to_ipv4_mapped`. -/
def ipv4Mapped (s : Vector UInt16 8) : Option (UInt8 × UInt8 × UInt8 × UInt8) :=
  if s[0] == 0 && s[1] == 0 && s[2] == 0 && s[3] == 0 && s[4] == 0 && s[5] == 0xffff then
    some ((s[6] >>> 8).toUInt8,s[6].toUInt8,(s[7] >>> 8).toUInt8,s[7].toUInt8)
  else none

def isPrivateOrLocal : IpAddr → Bool
  | .v4 a b c d => isPrivateV4 a b c d
  | .v6 s =>
    if s == #v[0,0,0,0,0,0,0,1] || s == #v[0,0,0,0,0,0,0,0] then true
    else
      match ipv4Mapped s with
      | some (a,b,c,d) => isPrivateV4 a b c d
      | none => s[0] &&& 0xffc0 == 0xfe80 || s[0] &&& 0xfe00 == 0xfc00

/-- `HttpClient` with the configuration and the library functions of its transports. -/
structure OutboundClient extends HttpClient where
  defaultTimeout : UInt64 := 30000
  responseSizeLimit : Option Nat := none
  allowedUrlPrefixes : List String := []
  allowedIpHosts : List String := []
  blockPrivateNetworks : Bool := true
  unixSocketMap : StringMap String := ∅
  parseIp : String → Option IpAddr := fun _ => none
  ipText : IpAddr → String := fun _ => ""
  /-- Why a text is no `Uri`. -/
  uriError : String → Option String := fun _ => none
  durationDebug : UInt64 → String := fun ms => toString ms.toNat ++ "ms"
  parseJson : List UInt8 → Option Json := fun _ => none
  utf8Lossy : List UInt8 → String := fun _ => ""

/-- Where a request may connect to. -/
inductive SsrfResolution
  | noPinning
  | pinned (host : String) (addrs : List SocketAddr)

/-- `Url::port_or_known_default`. -/
def Url.portOrKnownDefault (u : Url) : Option UInt16 :=
  u.port.or (match u.scheme with
    | "http" | "ws" => some 80
    | "https" | "wss" => some 443
    | "ftp" => some 21
    | _ => none)

def urlOrigin (u : Url) : Option String :=
  if u.scheme ≠ "http" ∧ u.scheme ≠ "https" then none
  else do
    let host ← u.host
    let port ← u.portOrKnownDefault
    pure (u.scheme ++ "://" ++ host ++ ":" ++ toString port.toNat)

/-- What follows `://`. -/
def afterScheme : List Char → Option (List Char)
  | [] => none
  | ':' :: '/' :: '/' :: rest => some rest
  | _ :: rest => afterScheme rest

/-- An entry behind `scheme://authority`: the tail from the offset that
`entry_scheme_authority_len` gives, empty when `has_path_component` does not hold. -/
def entryTail (entry : String) : String :=
  match afterScheme entry.toList with
  | none => ""
  | some rest => String.ofList (rest.dropWhile fun c => !List.contains ['/','?','#'] c)

def reqUrlPathQuery (u : Url) : String :=
  match u.query with
  | some query => u.path ++ "?" ++ query
  | none => u.path

section Policy
variable (client : OutboundClient)

def allowEntryMatches (entry reqOrigin : String) (reqUrl : Url) : Bool :=
  match client.parseUrl entry with
  | .error _ => false
  | .ok entryUrl =>
    match urlOrigin entryUrl with
    | none => false
    | some entryOrigin =>
      if entryTail entry ≠ "" then
        let reqFull := reqOrigin ++ reqUrlPathQuery reqUrl
        let entryFull := entryOrigin ++ entryTail entry
        if entryOrigin ≠ reqOrigin then false
        else
          match Text.stripPrefix reqFull entryFull with
          | none => false
          | some tail =>
            ['/','?','#'].any (entryFull.toList.getLast? == some ·) ||
              tail.toList.head?.all (['/','?','#','&'].contains ·)
      else entryOrigin == reqOrigin

/-- The check of `internal_requests.allowed_urls`. -/
def checkAllowedUrls (url : String) : Except RuuterError Unit :=
  if client.allowedUrlPrefixes.isEmpty then .ok ()
  else
    match client.parseUrl url with
    | .error e =>
      .error (.httpRequest ("url not in internal_requests.allowed_urls (unparseable '" ++ url ++ "'): " ++ e))
    | .ok parsed =>
      match urlOrigin parsed with
      | none => .error (.httpRequest ("url not in internal_requests.allowed_urls (no origin): " ++ url))
      | some origin =>
        if client.allowedUrlPrefixes.any (allowEntryMatches client · origin parsed) then .ok ()
        else .error (.httpRequest ("url not in internal_requests.allowed_urls: " ++ url))

/-- The host of a URL, as the two checks by host read it. -/
def hostOf (url : String) : Except RuuterError (String × Url) :=
  match client.parseUrl url with
  | .error e => .error (.httpRequest ("invalid url '" ++ url ++ "': " ++ e))
  | .ok parsed =>
    match parsed.host with
    | none => .error (.httpRequest ("url has no host: " ++ url))
    | some host => .ok (host,parsed)

/-- The check of `internal_requests.allowed_ips`. -/
def checkAllowedIps (url : String) : Except RuuterError Unit :=
  if client.allowedIpHosts.isEmpty then .ok ()
  else do
    let (host,_) ← hostOf client url
    if client.allowedIpHosts.contains host then .ok ()
    else .error (.httpRequest ("url host '" ++ host ++ "' not in internal_requests.allowed_ips"))

/-- The addresses of a host, each of them checked. -/
def checkAddrs (host : String) : List SocketAddr → Except RuuterError Unit
  | [] => .ok ()
  | addr :: rest =>
    if isPrivateOrLocal addr.ip then
      .error (.httpRequest ("outbound to '" ++ host ++ "' blocked: DNS resolved to private / link-local " ++
        client.ipText addr.ip ++ " (set internal_requests.block_private_networks=false or " ++
        "add the host to internal_requests.allowed_ips to opt in)"))
    else checkAddrs host rest

theorem checkAddrs_ok_iff : checkAddrs client host addrs = .ok () ↔
    ∀ addr ∈ addrs, isPrivateOrLocal addr.ip = false := by
  induction addrs with
  | nil => simp [checkAddrs]
  | cons addr rest ih =>
    rw [List.forall_mem_cons,← ih]
    cases blocked : isPrivateOrLocal addr.ip <;> simp [checkAddrs,blocked]

/-- The block on private networks, when no allow-list has approved the target. -/
def checkPrivate (lookupHost : String → Except String (List SocketAddr)) (url : String) :
    Except RuuterError SsrfResolution := do
  let (host,parsed) ← hostOf client url
  match client.parseIp host with
  | some ip =>
    if isPrivateOrLocal ip then
      .error (.httpRequest ("outbound to private / link-local target '" ++ host ++ "' blocked " ++
        "(set internal_requests.block_private_networks=false or " ++
        "add the host to internal_requests.allowed_ips to opt in)"))
    else .ok .noPinning
  | none =>
    match lookupHost (host ++ ":" ++ toString (parsed.portOrKnownDefault.getD 0).toNat) with
    | .error e => .error (.httpRequest ("dns lookup for '" ++ host ++ "' failed: " ++ e))
    | .ok addrs =>
      checkAddrs client host addrs
      if addrs.isEmpty then
        .error (.httpRequest ("outbound to '" ++ host ++ "' blocked: DNS returned no addresses"))
      else .ok (.pinned host addrs)

def checkSsrf (lookupHost : String → Except String (List SocketAddr)) (url : String) :
    Except RuuterError SsrfResolution := do
  if client.outboundDisabled then
    .error (.httpRequest "outbound HTTP is disabled by internal_requests.disabled")
  else
    checkAllowedUrls client url
    checkAllowedIps client url
    if client.blockPrivateNetworks && client.allowedUrlPrefixes.isEmpty && client.allowedIpHosts.isEmpty then
      checkPrivate client lookupHost url
    else .ok .noPinning

end Policy
end Ruuter
