import Ruuter.Outbound

/-! Transport failures. A failed exchange over TCP is a response of its own kind; over a Unix
socket it is an error of the step. -/
namespace Ruuter

/-- A response is longer than the limit, by the length it declares or by what arrives. -/
def Upstream.OverLimit (limit : Option Nat) (up : Upstream ε) : Prop :=
  ∃ cap, limit = some cap ∧
    ((∃ declared, ((responseHeaders up.headers).lookup "content-length").bind Text.parseU64 = some declared ∧
      cap < declared) ∨ cap < up.chunks.flatten.length)

/-- An exchange that fails: nothing is answered, or an answer within the limit breaks off. -/
def Failing (limit : Option Nat) (outcome : Except ε (Upstream ε)) : Prop :=
  ∀ up, outcome = .ok up → up.broken.isSome = true ∧ ¬ up.OverLimit limit

/-- An answer over the limit. -/
def TooLong (limit : Option Nat) (outcome : Except ε (Upstream ε)) : Prop :=
  ∃ up, outcome = .ok up ∧ up.OverLimit limit

theorem failing_error (e : ε) : Failing limit (.error e) := by
  intro up eq
  cases eq

theorem failing_broken {up : Upstream ε} (broken : up.broken = some e) (within : ¬ up.OverLimit limit) :
    Failing limit (.ok up) := by
  intro other eq
  cases eq
  rw [broken]
  exact ⟨rfl,within⟩

theorem not_failing_whole {up : Upstream ε} (whole : up.broken = none) : ¬ Failing limit (.ok up) := by
  intro failing
  have broken := (failing up rfl).1
  rw [whole] at broken
  cases broken

theorem not_failing_tooLong {outcome : Except ε (Upstream ε)} (long : TooLong limit outcome) :
    ¬ Failing limit outcome := by
  obtain ⟨up,rfl,beyond⟩ := long
  exact fun failing => (failing up rfl).2 beyond

section Collect
variable {ε : Type} {limit : Option Nat} {broken : Option ε} {buffer : List UInt8}
  {chunks : List (List UInt8)}

/-- A chunk that passes the limit ends the read before anything else does. -/
theorem collectBody_over (within : buffer.length ≤ cap) (beyond : cap < buffer.length + chunks.flatten.length) :
    collectBody (some cap) broken chunks buffer = .error (.inr cap) := by
  induction chunks generalizing buffer with
  | nil =>
    simp only [List.flatten_nil,List.length_nil] at beyond
    omega
  | cons chunk rest ih =>
    simp only [collectBody]
    split
    · rfl
    · rename_i room
      simp only [List.flatten_cons,List.length_append] at beyond
      apply ih
      · rw [List.length_append]
        omega
      · rw [List.length_append]
        omega

/-- Below the limit all chunks are read. -/
theorem collectBody_within (below : ∀ cap, limit = some cap → buffer.length + chunks.flatten.length ≤ cap) :
    collectBody limit broken chunks buffer =
      match broken with
      | some e => .error (.inl e)
      | none => .ok (buffer ++ chunks.flatten) := by
  induction chunks generalizing buffer with
  | nil => cases broken <;> simp [collectBody]
  | cons chunk rest ih =>
    have later : ∀ cap, limit = some cap → (buffer ++ chunk).length + rest.flatten.length ≤ cap := by
      intro cap given
      have total := below cap given
      simp only [List.flatten_cons,List.length_append] at total ⊢
      omega
    have whole : buffer ++ (chunk :: rest).flatten = buffer ++ chunk ++ rest.flatten := by
      simp [List.append_assoc]
    rw [whole,← ih later]
    cases limit with
    | none => rfl
    | some cap =>
      have room : ¬ cap < buffer.length + chunk.length := by
        have total := below cap rfl
        simp only [List.flatten_cons,List.length_append] at total
        omega
      simp only [collectBody,if_neg room]

end Collect

section Exchange
variable {h : Host} {client : OutboundClient} {net : Network}

/-- The declared length is read from the head alone, whatever content type is forced on it. -/
theorem overDeclared_forced (headers : StringMap String) :
    overDeclared limit (headers.insert "content-type" value) = overDeclared limit headers := by
  unfold overDeclared
  rw [AList.lookup_insert_ne (by decide)]

theorem overDeclared_eq_some {up : Upstream ε}
    (given : overDeclared limit (responseHeaders up.headers) = some found) : up.OverLimit limit := by
  cases limit with
  | none => cases given
  | some cap =>
    obtain ⟨bound,same,given⟩ := Option.bind_eq_some_iff.mp given
    cases same
    obtain ⟨declared,length,given⟩ := Option.bind_eq_some_iff.mp given
    split at given
    · rename_i beyond
      exact ⟨cap,rfl,.inl ⟨declared,length,beyond⟩⟩
    · cases given

/-- How the head and the body of a response come out: over the limit, broken off, or whole. -/
inductive Upstream.Reads (limit : Option Nat) (up : Upstream ε) : Prop
  | declared {found : Nat × Nat} (beyond : up.OverLimit limit)
      (head : overDeclared limit (responseHeaders up.headers) = some found)
  | passed {cap : Nat} (beyond : up.OverLimit limit)
      (head : overDeclared limit (responseHeaders up.headers) = none)
      (body : collectBody limit up.broken up.chunks [] = .error (.inr cap))
  | broken {e : ε} (within : ¬ up.OverLimit limit) (given : up.broken = some e)
      (head : overDeclared limit (responseHeaders up.headers) = none)
      (body : collectBody limit up.broken up.chunks [] = .error (.inl e))
  | whole (given : up.broken = none) (head : overDeclared limit (responseHeaders up.headers) = none)
      (body : collectBody limit up.broken up.chunks [] = .ok up.chunks.flatten)

theorem Upstream.reads (limit : Option Nat) (up : Upstream ε) : up.Reads limit := by
  cases head : overDeclared limit (responseHeaders up.headers) with
  | some found => exact .declared (overDeclared_eq_some head) head
  | none =>
    by_cases beyond : up.OverLimit limit
    · obtain ⟨cap,rfl,⟨declared,length,past⟩ | past⟩ := beyond
      · simp [overDeclared,length,past] at head
      · exact .passed ⟨cap,rfl,.inr past⟩ head (collectBody_over (Nat.zero_le cap) (by simpa using past))
    · have below : ∀ cap, limit = some cap → ([] : List UInt8).length + up.chunks.flatten.length ≤ cap := by
        intro cap given
        by_contra past
        exact beyond ⟨cap,given,.inr (by simpa using past)⟩
      have body : collectBody limit up.broken up.chunks [] =
          match up.broken with
          | some e => .error (.inl e)
          | none => .ok ([] ++ up.chunks.flatten) := collectBody_within below
      cases broken : up.broken with
      | some e => exact .broken beyond broken head (by simpa [broken] using body)
      | none => exact .whole broken head (by simpa [broken] using body)

/-- What an exchange over TCP comes to. -/
theorem exchangeTcp_cases (request : TcpRequest) (forceJson : Bool) :
    (Failing client.responseSizeLimit (net.tcp request) ∧
      ∃ e, exchangeTcp client net request forceJson = .ok (transportStub e)) ∨
    (TooLong client.responseSizeLimit (net.tcp request) ∧
      ∃ e, exchangeTcp client net request forceJson = .error e) ∨
    (¬ Failing client.responseSizeLimit (net.tcp request) ∧
      ∃ response, exchangeTcp client net request forceJson = .ok response) := by
  have forced : ∀ headers : StringMap String,
      overDeclared client.responseSizeLimit
        (if forceJson then headers.insert "content-type" "application/json" else headers) =
      overDeclared client.responseSizeLimit headers := by
    intro headers
    split
    · exact overDeclared_forced headers
    · rfl
  unfold exchangeTcp
  cases answered : net.tcp request with
  | error e => exact .inl ⟨failing_error e,e,rfl⟩
  | ok up =>
    simp only [forced]
    cases up.reads client.responseSizeLimit with
    | declared beyond head =>
      simp only [head]
      exact .inr (.inl ⟨⟨up,rfl,beyond⟩,_,rfl⟩)
    | passed beyond head body =>
      simp only [head,body]
      exact .inr (.inl ⟨⟨up,rfl,beyond⟩,_,rfl⟩)
    | broken within given head body =>
      simp only [head,body]
      exact .inl ⟨failing_broken given within,_,rfl⟩
    | whole given head body =>
      simp only [head,body]
      exact .inr (.inr ⟨not_failing_whole given,_,rfl⟩)

/-- What an exchange over a Unix socket comes to. -/
theorem exchangeSocket_cases (request : SocketRequest) :
    (Failing client.responseSizeLimit (net.socket request) ∧
      ∃ e, exchangeSocket client net request = .error e) ∨
    (TooLong client.responseSizeLimit (net.socket request) ∧
      ∃ e, exchangeSocket client net request = .error e) ∨
    (¬ Failing client.responseSizeLimit (net.socket request) ∧
      ∃ response, exchangeSocket client net request = .ok response) := by
  unfold exchangeSocket
  cases answered : net.socket request with
  | error e => exact .inl ⟨failing_error e,_,rfl⟩
  | ok up =>
    cases up.reads client.responseSizeLimit with
    | declared beyond head =>
      simp only [head]
      exact .inr (.inl ⟨⟨up,rfl,beyond⟩,_,rfl⟩)
    | passed beyond head body =>
      simp only [head,body]
      exact .inr (.inl ⟨⟨up,rfl,beyond⟩,_,rfl⟩)
    | broken within given head body =>
      simp only [head,body]
      exact .inl ⟨failing_broken given within,_,rfl⟩
    | whole given head body =>
      simp only [head,body]
      exact .inr (.inr ⟨not_failing_whole given,_,rfl⟩)

end Exchange

section Policy
variable (client : OutboundClient) (lookupHost : String → Except String (List SocketAddr)) (url : String)

/-- The block on private networks applies: no allow-list takes its place. -/
structure OutboundClient.Blocks : Prop where
  block : client.blockPrivateNetworks = true
  urls : client.allowedUrlPrefixes = []
  ips : client.allowedIpHosts = []

/-- The host of a URL is looked up: the block applies, and the host is no literal address. -/
structure LooksUp (host target : String) : Prop where
  enabled : client.outboundDisabled = false
  blocks : client.Blocks
  parsed : ∃ parsed, hostOf client url = .ok (host,parsed) ∧
    target = host ++ ":" ++ toString (parsed.portOrKnownDefault.getD 0).toNat
  name : client.parseIp host = none

/-- A host that has to be looked up resolves to an address. -/
def HostResolves : Prop :=
  ∀ host target, LooksUp client url host target → ∃ addr rest, lookupHost target = .ok (addr :: rest)

/-- Why the policy refuses a URL; that a lookup fails is none of it. -/
inductive SsrfRefusal : Prop
  | disabled (off : client.outboundDisabled = true)
  | allowedUrls (outside : checkAllowedUrls client url = .error e)
  | allowedIps (outside : checkAllowedIps client url = .error e)
  | malformed (blocks : client.Blocks) (failed : hostOf client url = .error e)
  | literal (blocks : client.Blocks) (host : hostOf client url = .ok (name,parsed))
      (ip : client.parseIp name = some address) (blocked : isPrivateOrLocal address = true)
  | resolved (looked : LooksUp client url host target) (answer : lookupHost target = .ok addrs)
      (member : addr ∈ addrs) (blocked : isPrivateOrLocal addr.ip = true)

end Policy

section Refusal
variable {client : OutboundClient} {lookupHost : String → Except String (List SocketAddr)} {url : String}

/-- What the check lets through the policy does not refuse. -/
theorem SsrfRefusal.not_ok (refused : SsrfRefusal client lookupHost url) :
    checkSsrf client lookupHost url ≠ .ok resolution := by
  intro passed
  unfold checkSsrf at passed
  split at passed
  · cases passed
  · rename_i on
    obtain ⟨_,urls,passed⟩ := Eff.except_bind_inv passed
    obtain ⟨_,ips,passed⟩ := Eff.except_bind_inv passed
    have blocks (blocks : client.Blocks) : checkPrivate client lookupHost url = .ok resolution := by
      rwa [if_pos (by simp [blocks.block,blocks.urls,blocks.ips])] at passed
    cases refused with
    | disabled off => exact on off
    | allowedUrls outside => cases urls.symm.trans outside
    | allowedIps outside => cases ips.symm.trans outside
    | malformed applies failed =>
      obtain ⟨_,found,_⟩ := Eff.except_bind_inv (blocks applies)
      cases found.symm.trans failed
    | literal applies host ip blocked =>
      obtain ⟨_,found,rest⟩ := Eff.except_bind_inv (blocks applies)
      cases found.symm.trans host
      simp [ip,blocked] at rest
    | resolved looked answer member blocked =>
      obtain ⟨_,applies,⟨_,host,rfl⟩,name⟩ := looked
      obtain ⟨_,found,rest⟩ := Eff.except_bind_inv (blocks applies)
      cases found.symm.trans host
      simp only [name,answer] at rest
      obtain ⟨_,checked,_⟩ := Eff.except_bind_inv rest
      exact Bool.false_ne_true (((checkAddrs_ok_iff client).mp checked _ member).symm.trans blocked)

/-- The check fails by a refusal of the policy, or because a host does not resolve. -/
theorem checkPrivate_error (enabled : client.outboundDisabled = false) (blocks : client.Blocks)
    (resolves : HostResolves client lookupHost url)
    (failed : checkPrivate client lookupHost url = .error e) : SsrfRefusal client lookupHost url := by
  rcases Eff.except_bind_error.mp failed with hostless | ⟨⟨host,parsed⟩,found,rest⟩
  · exact .malformed blocks hostless
  · dsimp only at rest
    split at rest
    · rename_i ip literal
      split at rest
      · rename_i blocked
        exact .literal blocks found literal blocked
      · cases rest
    · rename_i name
      have looked : LooksUp client url host _ := ⟨enabled,blocks,⟨parsed,found,rfl⟩,name⟩
      obtain ⟨addr,others,answer⟩ := resolves _ _ looked
      rw [answer] at rest
      rcases Eff.except_bind_error.mp rest with failed | ⟨_,_,rest⟩
      · by_contra free
        have checked : checkAddrs client host (addr :: others) = .ok () :=
          (checkAddrs_ok_iff client).mpr fun one member => by
            rw [Bool.eq_false_iff]
            exact fun blocked => free (.resolved looked answer member blocked)
        cases checked.symm.trans failed
      · cases rest

theorem checkSsrf_error (resolves : HostResolves client lookupHost url)
    (failed : checkSsrf client lookupHost url = .error e) : SsrfRefusal client lookupHost url := by
  unfold checkSsrf at failed
  split at failed
  · rename_i off
    exact .disabled off
  · rename_i on
    rcases Eff.except_bind_error.mp failed with outside | ⟨_,_,failed⟩
    · exact .allowedUrls outside
    rcases Eff.except_bind_error.mp failed with outside | ⟨_,_,failed⟩
    · exact .allowedIps outside
    split at failed
    · rename_i applies
      simp only [Bool.and_eq_true,List.isEmpty_iff] at applies
      exact checkPrivate_error (Bool.not_eq_true _ ▸ on) ⟨applies.1.1,applies.1.2,applies.2⟩ resolves failed
    · cases failed

/-- A host that does not resolve fails the check. -/
theorem checkSsrf_unresolved (looked : LooksUp client url host target)
    (unresolved : ¬ ∃ addr rest, lookupHost target = .ok (addr :: rest)) :
    ∃ e, checkSsrf client lookupHost url = .error e := by
  obtain ⟨enabled,⟨block,urls,ips⟩,⟨parsed,found,rfl⟩,name⟩ := looked
  simp only [checkSsrf,checkAllowedUrls,checkAllowedIps,enabled,block,urls,ips,List.isEmpty_nil,
    Bool.and_true,Bool.false_eq_true,if_true,if_false,bind,Except.bind,checkPrivate,found,name]
  rcases answer : lookupHost (host ++ ":" ++ toString (parsed.portOrKnownDefault.getD 0).toNat) with e | addrs
  · exact ⟨_,rfl⟩
  · cases addrs with
    | nil => exact ⟨_,rfl⟩
    | cons addr rest => exact absurd ⟨addr,rest,answer⟩ unresolved

/-- The check fails only by a refusal of the policy exactly when a host that has to be looked up
resolves. -/
theorem refusal_iff : (∀ e, checkSsrf client lookupHost url = .error e → SsrfRefusal client lookupHost url) ↔
    HostResolves client lookupHost url := by
  constructor
  · intro refused host target looked
    by_contra unresolved
    obtain ⟨e,failed⟩ := checkSsrf_unresolved looked unresolved
    obtain ⟨enabled,⟨block,urls,ips⟩,⟨parsed,found,named⟩,name⟩ := looked
    cases refused e failed with
    | disabled off => cases enabled.symm.trans off
    | allowedUrls outside => simp [checkAllowedUrls,urls] at outside
    | allowedIps outside => simp [checkAllowedIps,ips] at outside
    | malformed _ hostless => cases found.symm.trans hostless
    | literal _ again ip =>
      cases found.symm.trans again
      cases name.symm.trans ip
    | resolved looked answer member =>
      obtain ⟨_,_,⟨_,again,rfl⟩,_⟩ := looked
      cases found.symm.trans again
      subst named
      obtain ⟨addr,rest,rfl⟩ := List.exists_cons_of_ne_nil (List.ne_nil_of_mem member)
      exact unresolved ⟨addr,rest,answer⟩
  · intro resolves e failed
    exact checkSsrf_error resolves failed

end Refusal

section InBand
variable (h : Host) (client : OutboundClient) (net : Network)

/-- The transport of an encoded request fails. -/
def Encoded.Fails : Encoded → Prop
  | .tcp request _ => Failing client.responseSizeLimit (net.tcp request)
  | .socket request => Failing client.responseSizeLimit (net.socket request)

/-- The answer to an encoded request is over the limit. -/
def Encoded.Exceeds : Encoded → Prop
  | .tcp request _ => TooLong client.responseSizeLimit (net.tcp request)
  | .socket request => TooLong client.responseSizeLimit (net.socket request)

/-- The request of an `http` step. -/
def HttpStep.outbound (s : HttpStep) (method : String) (args : ResolvedArgs) : Outbound where
  method := method
  url := args.url.asStr?.getD ""
  body := args.body
  query := args.query
  headers := nonempty args.headers
  timeout := s.timeout
  contentType := s.args.contentType

/-- The host whose requests go out over the network of the moment. -/
def Host.onNetwork (moments : Nat → Network) : Host :=
  { h with request := fun now => transmit h client (moments now) }

/-- The socket a request goes to, with the host and the path it is sent for. -/
def socketTarget (url : String) : Option (Except RuuterError (String × String × String)) :=
  if Text.startsWith url "unix://" then
    some ((parseUnixUrl url).map fun (socket,base) => (socket,"localhost",base))
  else
    (hostAliasLookup client url).map fun socket =>
      match client.parseUrl url with
      | .error e => .error (.httpRequest ("invalid aliased url '" ++ url ++ "': " ++ e))
      | .ok parsed => .ok (socket,parsed.host.getD "localhost",reqUrlPathQuery parsed)

/-- What the URI of a request over a socket is built from is no URI. -/
def uriRefused (request : Outbound) (host base : String) : Bool :=
  (client.uriError ("http://" ++ host ++ mergeQueryParams base (queryTexts h request.query))).isSome

/-- The policy refuses a request: its URL over TCP, a malformed URL for a socket. -/
def PolicyRefuses (request : Outbound) : Prop :=
  match socketTarget client request.url with
  | none => SsrfRefusal client net.lookupHost request.url
  | some (.error _) => True
  | some (.ok (_,host,base)) => uriRefused h client request host base = true

/-- A request that the policy does not refuse can be put together: its host resolves, and what is
sent can be built. -/
structure Buildable (request : Outbound) : Prop where
  resolves : socketTarget client request.url = none → HostResolves client net.lookupHost request.url
  pinned : socketTarget client request.url = none → ∀ host addrs,
    checkSsrf client net.lookupHost request.url = .ok (.pinned host addrs) → net.pinningError host = none
  form : socketTarget client request.url = none → ∀ resolution,
    checkSsrf client net.lookupHost request.url = .ok resolution → request.contentType = some "formdata" →
    ∀ value, request.body = some value → ∃ members, value = .object members
  headers : ∀ socket host base, socketTarget client request.url = some (.ok (socket,host,base)) →
    uriRefused h client request host base = false → ∀ header ∈ withoutNull h request.headers,
    (headerName header.1).isSome = true ∧ (headerValue header.2).isSome = true

/-- The client sends the request out. -/
structure OutboundClient.Sends (url : String) : Prop where
  online : client.offline = false
  enabled : client.outboundDisabled = false
  external : ¬ (client.isSelf url = true ∧ client.hasRouterHandle = true)

variable (moments : Nat → Network)

/-- Transport failures are in-band: a request that passed every check is answered with status 0
and the kind of the failure, its step binds that and continues, and an error is raised only by the
policy or over the size limit. -/
structure InBand (request : Outbound) : Prop where
  stub : client.Sends request.url → ∀ r run tree now encoded,
    encode h client (moments now.clock) request = .ok encoded → encoded.Fails client (moments now.clock) →
    ∃ response after, requestWithCt (h.onNetwork client moments) client.toHttpClient r run tree request now =
      (.ok (.ok response),after) ∧ response.status = 0 ∧ response.error.isSome = true
  continues : client.Sends request.url → ∀ r run tree engine ctx (s : HttpStep) method args before now encoded,
    parseMethod s.call = some method →
    resolveArgs (h.onNetwork client moments) ctx "http" s.args before = (.ok args,now) →
    s.outbound method args = request → encode h client (moments now.clock) request = .ok encoded →
    encoded.Fails client (moments now.clock) →
    ∃ response after, response.status = 0 ∧ response.error.isSome = true ∧
      requestWithCt (h.onNetwork client moments) client.toHttpClient r run tree request now =
        (.ok (.ok response),after) ∧
      executeHttpWith (h.onNetwork client moments) engine ctx
        (requestWithCt (h.onNetwork client moments) client.toHttpClient r run tree) s before =
        (.ok { nextStep := s.error.or s.next },(bindResult s.result (responseValue response) after).2)
  raised : client.Sends request.url → ∀ r run tree now e after,
    requestWithCt (h.onNetwork client moments) client.toHttpClient r run tree request now =
      (.ok (.error e),after) →
    PolicyRefuses h client (moments now.clock) request ∨
      ∃ encoded, encode h client (moments now.clock) request = .ok encoded ∧
        encoded.Exceeds client (moments now.clock)

/-- The request is not sent to a Unix socket whose exchange fails. -/
def SocketsAnswer (request : Outbound) : Prop :=
  client.Sends request.url → ∀ now encoded, encode h client (moments now) request = .ok (.socket encoded) →
    ¬ Failing client.responseSizeLimit ((moments now).socket encoded)

end InBand

section Executed
variable {h : Host} {client : OutboundClient} {net : Network}

theorem transmit_eq (passed : encode h client net request = .ok encoded) :
    transmit h client net request = exchange client net encoded := by
  simp only [transmit,passed,bind,Except.bind]

theorem transmit_failed (failed : encode h client net request = .error e) :
    transmit h client net request = .error e := by
  simp only [transmit,failed,bind,Except.bind]

/-- The transport of a request is chosen by its URL. -/
theorem encode_eq (request : Outbound) : encode h client net request =
    match socketTarget client request.url with
    | none => encodeTcp h client net request
    | some target => target >>= fun (socket,host,base) =>
        encodeSocket h client socket host base request >>= fun encoded => .ok (.socket encoded) := by
  unfold encode socketTarget
  split
  · cases parseUnixUrl request.url <;> rfl
  · cases hostAliasLookup client request.url with
    | none => rfl
    | some socket => cases client.parseUrl request.url <;> rfl

/-- A header that is not valid fails the request. -/
theorem checkHeaders_iff (headers : List (String × String)) :
    checkHeaders headers = .ok () ↔
      ∀ header ∈ headers, (headerName header.1).isSome = true ∧ (headerValue header.2).isSome = true := by
  induction headers with
  | nil => simp [checkHeaders]
  | cons header rest ih =>
    obtain ⟨name,value⟩ := header
    rw [List.forall_mem_cons,← ih]
    cases named : headerName name with
    | none => simp [checkHeaders,named]
    | some lower =>
      cases valued : headerValue value <;> simp [checkHeaders,named,valued]

theorem headerValue_digits (n : Nat) : (headerValue (toString n)).isSome = true := by
  have digits : ∀ c ∈ (toString n).toList, ((' ' ≤ c && c ≠ '\x7f') || c = '\t') = true := by
    intro c member
    have digit : c.isDigit = true := by
      apply Nat.isDigit_of_mem_toDigits (b := 10) (n := n) (by decide) (by decide)
      simpa using member
    have ranges : c.isDigit = (decide ('0'.val ≤ c.val) && decide (c.val ≤ '9'.val)) := rfl
    simp only [ranges,Bool.and_eq_true,decide_eq_true_eq,UInt32.le_iff_toNat_le] at digit
    have bounds : 48 ≤ c.toNat ∧ c.toNat ≤ 57 := digit
    have low : ' ' ≤ c := UInt32.le_iff_toNat_le.mpr (show 32 ≤ c.toNat by omega)
    have last : c ≠ '\x7f' := by
      rintro rfl
      exact absurd bounds.2 (by decide)
    simp [low,last]
  unfold headerValue
  rw [if_pos (List.all_eq_true.mpr digits)]
  rfl

/-- A request is put together for a socket when its URI parses and its headers are valid. -/
theorem encodeSocket_ok_iff (socket host base : String) (request : Outbound) :
    (∃ encoded, encodeSocket h client socket host base request = .ok encoded) ↔
      uriRefused h client request host base = false ∧ ∀ header ∈ withoutNull h request.headers,
        (headerName header.1).isSome = true ∧ (headerValue header.2).isSome = true := by
  have framing : ∀ content : String, ∀ length type : Bool,
      ∀ header ∈ (if length then [] else [("content-length",toString content.utf8ByteSize)]) ++
        (if type then [] else [("content-type","application/json")]),
      (headerName header.1).isSome = true ∧ (headerValue header.2).isSome = true := by
    intro content length type header member
    have named : (headerName "content-length").isSome = true := by decide
    have typed : (headerName "content-type").isSome = true ∧
        (headerValue "application/json").isSome = true := by decide
    rcases List.mem_append.mp member with first | second
    · cases length with
      | true => cases first
      | false =>
        rw [List.mem_singleton.mp first]
        exact ⟨named,headerValue_digits _⟩
    · cases type with
      | true => cases second
      | false =>
        rw [List.mem_singleton.mp second]
        exact typed
  unfold encodeSocket uriRefused
  dsimp only [SocketRequest.pathAndQuery]
  cases client.uriError ("http://" ++ host ++ mergeQueryParams base (queryTexts h request.query)) with
  | some e => simp
  | none =>
    simp only [Option.isSome_none,true_and]
    constructor
    · rintro ⟨encoded,given⟩ header member
      obtain ⟨_,checked,_⟩ := Eff.except_bind_inv given
      exact (checkHeaders_iff _).mp checked header (List.mem_append_left _ member)
    · intro valid
      rw [(checkHeaders_iff _).mpr]
      · exact ⟨_,rfl⟩
      · intro header member
        rcases List.mem_append.mp member with own | framed
        · exact valid header own
        · split at framed
          · cases framed
          · exact framing _ _ _ header framed

/-- A body can be rendered unless a form is asked for of what is no object. -/
theorem tcpBody_ok_iff (declared : Option String) (body : Option Json) :
    (∃ rendered, tcpBody h declared body = .ok rendered) ↔
      (declared = some "formdata" → ∀ value, body = some value → ∃ members, value = .object members) := by
  cases body with
  | none => simp [tcpBody]
  | some value =>
    simp only [tcpBody,Option.some.injEq,forall_eq']
    split
    · simp
    · simp only [forall_const]
      cases value with
      | object members =>
        simp only [Json.object.injEq,exists_eq']
        split <;> simp
      | _ => simp
    · simp only [Option.some.injEq,String.reduceEq,false_implies,iff_true]
      cases value <;> exact ⟨_,rfl⟩
    · rename_i other _ _
      refine iff_of_true ⟨_,rfl⟩ ?_
      intro form
      exact absurd form (by assumption)

/-- A request is put together for TCP when the check lets it through, the client for a pinned host
can be built and the body rendered. -/
theorem encodeTcp_ok_iff (request : Outbound) :
    (∃ encoded, encodeTcp h client net request = .ok encoded) ↔
      ∃ resolution, checkSsrf client net.lookupHost request.url = .ok resolution ∧
        buildPinnedClient net resolution = .ok () ∧
        ∃ rendered, tcpBody h request.contentType request.body = .ok rendered := by
  constructor
  · rintro ⟨encoded,given⟩
    unfold encodeTcp at given
    obtain ⟨resolution,checked,given⟩ := Eff.except_bind_inv given
    obtain ⟨_,pinned,given⟩ := Eff.except_bind_inv given
    obtain ⟨rendered,body,_⟩ := Eff.except_bind_inv given
    exact ⟨resolution,checked,pinned,rendered,body⟩
  · rintro ⟨resolution,checked,pinned,rendered,body⟩
    unfold encodeTcp
    rw [checked]
    simp only [bind,Except.bind,pinned,body]
    exact ⟨_,rfl⟩

theorem buildPinnedClient_ok_iff (resolution : SsrfResolution) :
    buildPinnedClient net resolution = .ok () ↔
      ∀ host addrs, resolution = .pinned host addrs → net.pinningError host = none := by
  cases resolution with
  | noPinning => simp [buildPinnedClient]
  | pinned host addrs =>
    cases failed : net.pinningError host with
    | none => simp [buildPinnedClient,failed]
    | some e => simp [buildPinnedClient,failed]

/-- Over TCP only the policy fails a request before anything is sent, exactly when the request is
buildable. -/
theorem buildable_tcp {request : Outbound} (direct : socketTarget client request.url = none) :
    (∀ e, encodeTcp h client net request = .error e → SsrfRefusal client net.lookupHost request.url) ↔
      Buildable h client net request := by
  constructor
  · intro refused
    have resolves : HostResolves client net.lookupHost request.url := refusal_iff.mp fun e failed =>
      refused e (by simp only [encodeTcp,failed,bind,Except.bind])
    have built : ∀ resolution, checkSsrf client net.lookupHost request.url = .ok resolution →
        buildPinnedClient net resolution = .ok () ∧
          ∃ rendered, tcpBody h request.contentType request.body = .ok rendered := by
      intro resolution checked
      cases encoded : encodeTcp h client net request with
      | ok sent =>
        obtain ⟨_,same,sound⟩ := (encodeTcp_ok_iff request).mp ⟨sent,encoded⟩
        cases checked.symm.trans same
        exact sound
      | error e => exact absurd checked (refused e encoded).not_ok
    refine ⟨fun _ => resolves,?_,?_,?_⟩
    · intro _ host addrs checked
      exact (buildPinnedClient_ok_iff _).mp (built _ checked).1 host addrs rfl
    · intro _ resolution checked
      exact (tcpBody_ok_iff _ _).mp (built _ checked).2
    · intro socket host base other
      cases direct.symm.trans other
  · intro buildable e failed
    cases checked : checkSsrf client net.lookupHost request.url with
    | error e => exact refusal_iff.mpr (buildable.resolves direct) e checked
    | ok resolution =>
      have pinned : buildPinnedClient net resolution = .ok () := by
        rw [buildPinnedClient_ok_iff]
        rintro host addrs rfl
        exact buildable.pinned direct host addrs checked
      have rendered := (tcpBody_ok_iff (h := h) _ _).mpr (buildable.form direct resolution checked)
      obtain ⟨_,encoded⟩ := (encodeTcp_ok_iff (h := h) request).mpr ⟨resolution,checked,pinned,rendered⟩
      cases failed.symm.trans encoded

/-- Over a socket only a malformed URI fails before anything is sent, exactly when the request is
buildable. -/
theorem buildable_socket {request : Outbound}
    (target : socketTarget client request.url = some (.ok (socket,host,base))) :
    (∀ e, encodeSocket h client socket host base request = .error e →
      uriRefused h client request host base = true) ↔ Buildable h client net request := by
  constructor
  · intro refused
    refine ⟨?_,?_,?_,?_⟩
    · intro other
      cases target.symm.trans other
    · intro other
      cases target.symm.trans other
    · intro other
      cases target.symm.trans other
    · intro socket' host' base' same parses
      cases target.symm.trans same
      cases encoded : encodeSocket h client socket host base request with
      | ok sent => exact ((encodeSocket_ok_iff _ _ _ _).mp ⟨sent,encoded⟩).2
      | error e => cases parses.symm.trans (refused e encoded)
  · intro buildable e failed
    cases parses : uriRefused h client request host base with
    | true => rfl
    | false =>
      have valid := buildable.headers socket host base target parses
      obtain ⟨_,encoded⟩ := (encodeSocket_ok_iff socket _ _ _).mpr ⟨parses,valid⟩
      cases failed.symm.trans encoded

/-- Only a refusal of the policy fails before anything is sent, exactly when the request is
buildable. -/
theorem buildable_iff (request : Outbound) :
    (∀ e, encode h client net request = .error e → PolicyRefuses h client net request) ↔
      Buildable h client net request := by
  rw [encode_eq request]
  cases target : socketTarget client request.url with
  | none =>
    simp only [PolicyRefuses,target]
    exact buildable_tcp target
  | some result =>
    cases result with
    | error e =>
      simp only [PolicyRefuses,target,implies_true,true_iff]
      refine ⟨?_,?_,?_,?_⟩
      · intro other
        cases target.symm.trans other
      · intro other
        cases target.symm.trans other
      · intro other
        cases target.symm.trans other
      · intro socket host base other
        cases target.symm.trans other
    | ok parts =>
      obtain ⟨socket,host,base⟩ := parts
      simp only [PolicyRefuses,target]
      rw [← buildable_socket target]
      refine forall_congr' fun e => ?_
      simp only [bind,Except.bind]
      cases encodeSocket h client socket host base request with
      | ok sent => simp
      | error e => simp

/-- A request that is sent out is answered by the transports. -/
theorem requestWithCt_eq (moments : Nat → Network) (sends : client.Sends request.url) (r : Router)
    (run : Runner) (tree : Tree) (s : St) :
    requestWithCt (h.onNetwork client moments) client.toHttpClient r run tree request s =
      (.ok (transmit h client (moments s.clock) request),
        { s with trace := s.trace ++ [.requested request], clock := s.clock + 1 }) := by
  simp only [requestWithCt,sends.online,sends.enabled,sends.external,Bool.false_eq_true,if_false]
  rfl

theorem bindResult_eq (result : Option String) (value : Json) (s : St) :
    bindResult result value s = (.ok (),(bindResult result value s).2) := by
  cases result <;> rfl

/-- A step binds a response that stands for a failure, and goes on at `error:` or `next:`. -/
theorem executeHttpWith_failed {engine : Engine} {s : HttpStep}
    {send : Outbound → M (Except RuuterError HttpResponse)} (method : parseMethod s.call = some verb)
    (resolved : resolveArgs h ctx "http" s.args before = (.ok args,now))
    (sent : send (s.outbound verb args) now = (.ok (.ok response),after))
    (failed : response.error.isSome = true) :
    executeHttpWith h engine ctx send s before =
      (.ok { nextStep := s.error.or s.next },(bindResult s.result (responseValue response) after).2) := by
  simp only [executeHttpWith,method]
  refine (Eff.bind_eq_ok resolved).trans ?_
  refine (Eff.bind_eq_ok sent).trans ?_
  refine (Eff.bind_eq_ok rfl).trans ?_
  refine (Eff.bind_eq_ok (bindResult_eq _ _ _)).trans ?_
  simp only [failed,if_true]
  rfl

theorem stub_tcp (failing : Failing client.responseSizeLimit (net.tcp tcp)) :
    ∃ e, exchangeTcp client net tcp forceJson = .ok (transportStub e) := by
  obtain ⟨_,stub⟩ | ⟨long,_⟩ | ⟨sound,_⟩ := exchangeTcp_cases tcp forceJson
  · exact stub
  · exact absurd failing (not_failing_tooLong long)
  · exact absurd failing sound

/-- What fails on its way is answered with the stub, where sockets answer. -/
theorem transmit_stub (passed : encode h client net request = .ok encoded) (failing : encoded.Fails client net)
    (answers : ∀ socket, encode h client net request = .ok (.socket socket) →
      ¬ Failing client.responseSizeLimit (net.socket socket)) :
    ∃ e, transmit h client net request = .ok (transportStub e) := by
  rw [transmit_eq passed]
  cases encoded with
  | tcp tcp forceJson => exact stub_tcp failing
  | socket socket => exact absurd failing (answers socket passed)

/-- What is raised is a refusal of the policy or a response over the limit, where sockets answer and the
request can be put together. -/
theorem transmit_raised (buildable : Buildable h client net request)
    (answers : ∀ socket, encode h client net request = .ok (.socket socket) →
      ¬ Failing client.responseSizeLimit (net.socket socket))
    (raised : transmit h client net request = .error e) :
    PolicyRefuses h client net request ∨
      ∃ encoded, encode h client net request = .ok encoded ∧ encoded.Exceeds client net := by
  cases passed : encode h client net request with
  | error rejected => exact .inl ((buildable_iff request).mpr buildable rejected passed)
  | ok encoded =>
    rw [transmit_eq passed] at raised
    refine .inr ⟨encoded,rfl,?_⟩
    cases encoded with
    | tcp tcp forceJson =>
      obtain ⟨_,_,stub⟩ | ⟨long,_⟩ | ⟨_,_,whole⟩ := exchangeTcp_cases tcp forceJson
      · cases raised.symm.trans stub
      · exact long
      · cases raised.symm.trans whole
    | socket socket =>
      obtain ⟨failing,_⟩ | ⟨long,_⟩ | ⟨_,_,whole⟩ := exchangeSocket_cases socket
      · exact absurd failing (answers socket passed)
      · exact long
      · cases raised.symm.trans whole

theorem socketsAnswer_of_inBand {moments : Nat → Network} (inBand : InBand h client moments request) :
    SocketsAnswer h client moments request := by
  intro sends now encoded passed failing
  obtain ⟨response,after,answered,_⟩ := inBand.stub sends {} (fun _ _ => pure {}) { dsls := ∅ }
    { clock := now } _ passed failing
  rw [requestWithCt_eq _ sends,transmit_eq passed] at answered
  obtain ⟨answered,_⟩ := Prod.mk.inj answered
  obtain ⟨_,e,raised⟩ | ⟨long,_⟩ | ⟨sound,_⟩ := exchangeSocket_cases encoded
  · cases answered.symm.trans (congrArg _ raised)
  · exact not_failing_tooLong long failing
  · exact sound failing

theorem buildable_of_inBand {moments : Nat → Network} (inBand : InBand h client moments request)
    (sends : client.Sends request.url) (now : Nat) : Buildable h client (moments now) request := by
  rw [← buildable_iff]
  intro e failed
  have sent := requestWithCt_eq (h := h) moments sends {} (fun _ _ => pure {}) { dsls := ∅ } { clock := now }
  rw [transmit_failed failed] at sent
  obtain refused | ⟨encoded,passed,_⟩ := inBand.raised sends _ _ _ _ e _ sent
  · exact refused
  · cases failed.symm.trans passed

end Executed

/-- The failures of a request are in-band exactly when it is not sent to a Unix socket whose
exchange fails, and can be put together unless the policy refuses it. -/
theorem inBand_iff (h : Host) (client : OutboundClient) (moments : Nat → Network) (request : Outbound) :
    InBand h client moments request ↔ SocketsAnswer h client moments request ∧
      (client.Sends request.url → ∀ now, Buildable h client (moments now) request) := by
  constructor
  · intro inBand
    exact ⟨socketsAnswer_of_inBand inBand,buildable_of_inBand inBand⟩
  · rintro ⟨answers,buildable⟩
    refine ⟨?_,?_,?_⟩
    · intro sends r run tree now encoded passed failing
      obtain ⟨e,answered⟩ := transmit_stub passed failing (answers sends _)
      have sent := requestWithCt_eq (h := h) moments sends r run tree now
      rw [answered] at sent
      exact ⟨transportStub e,_,sent,rfl,rfl⟩
    · intro sends r run tree engine ctx s method args before now encoded verb resolved same passed failing
      obtain ⟨e,answered⟩ := transmit_stub passed failing (answers sends _)
      have sent := requestWithCt_eq (h := h) moments sends r run tree now
      rw [answered] at sent
      refine ⟨transportStub e,_,rfl,rfl,sent,executeHttpWith_failed verb resolved ?_ rfl⟩
      rw [same]
      exact sent
    · intro sends r run tree now e after raised
      rw [requestWithCt_eq _ sends] at raised
      obtain ⟨raised,_⟩ := Prod.mk.inj raised
      exact transmit_raised (buildable sends _) (answers sends _) (Except.ok.inj raised)

/-- A socket that no process listens at. -/
def absentSidecar : Network where
  tcp := fun _ => .ok { status := 200 }
  socket := fun _ => .error (.failed "client error (Connect)")

def sidecarRequest : Outbound where
  method := "GET"
  url := "unix:///s.sock/"
  body := none
  query := none
  headers := none
  timeout := none
  contentType := none

def sidecarEncoded : SocketRequest where
  socket := "/s.sock"
  host := "localhost"
  method := "GET"
  base := "/"
  query := []
  headers := []
  body := none
  timeout := 30000

theorem sidecar_encoded : encode {} {} absentSidecar sidecarRequest = .ok (.socket sidecarEncoded) := rfl

/-- A sidecar that is down makes the request an error. -/
theorem absent_sidecar_raised :
    Failing none (absentSidecar.socket sidecarEncoded) ∧
      transmit {} {} absentSidecar sidecarRequest =
        .error (.httpRequest "uds send (pooled): client error (Connect)") ∧
      ¬ InBand {} {} (fun _ => absentSidecar) sidecarRequest := by
  have raised : transmit {} {} absentSidecar sidecarRequest =
      .error (.httpRequest "uds send (pooled): client error (Connect)") := by
    rw [transmit_eq sidecar_encoded]
    rfl
  refine ⟨failing_error _,raised,?_⟩
  intro inBand
  have sends : OutboundClient.Sends {} sidecarRequest.url := ⟨rfl,rfl,fun self => by cases self.1⟩
  obtain ⟨response,after,answered,_⟩ := inBand.stub sends {} (fun _ _ => pure {}) { dsls := ∅ } {} _
    sidecar_encoded (failing_error _)
  rw [requestWithCt_eq _ sends,raised] at answered
  cases (Prod.mk.inj answered).1

end Ruuter
