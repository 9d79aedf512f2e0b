import Ruuter.Proxy
import Ruuter.Ssrf
import Ruuter.Lib.FormUrlencoded
import Ruuter.Lib.Utf16

/-! The CSRF check (`src/router/mod.rs`) over header maps: which requests with an enforced method get
past it. The check reads one value of a header as text; an origin is rebuilt from the parts of a URL. -/
namespace Ruuter.Csrf
open Multimap Proxy

/-- The schemes whose origins are tuples. -/
def tupleSchemes : List String := ["ftp","http","https","ws","wss"]

def defaultPort (scheme : String) : Option UInt16 :=
  match scheme with
  | "http" | "ws" => some 80
  | "https" | "wss" => some 443
  | "ftp" => some 21
  | _ => none

/-- What the parser guarantees of a URL: a port that is the default is left out, and the schemes with
tuple origins have a host. -/
structure Canonical (url : Url) : Prop where
  port : ∀ port, url.port = some port → defaultPort url.scheme ≠ some port
  host : url.scheme ∈ tupleSchemes → url.host.isSome

/-- `url::Url::parse`. -/
structure UrlParser where
  parse : String → Option Url
  canonical : ∀ text url, parse text = some url → Canonical url

/-- `url::Origin`. -/
inductive Origin
  | opaqueOrigin
  | tuple (scheme host : String) (port : UInt16)

/-- `Origin::ascii_serialization`. -/
def Origin.asciiSerialization : Origin → String
  | .opaqueOrigin => "null"
  | .tuple scheme host port =>
    if defaultPort scheme = some port then scheme ++ "://" ++ host
    else scheme ++ "://" ++ host ++ ":" ++ toString port.toNat

/-- `Url::origin`. The origin of a `blob:` URL is that of the URL in its path. -/
inductive OriginOf (parser : UrlParser) : Url → Origin → Prop
  | tuple {url : Url} : url.scheme ∈ tupleSchemes → url.host = some host →
      url.portOrKnownDefault = some port → OriginOf parser url (.tuple url.scheme host port)
  | blob {url inner : Url} : url.scheme = "blob" → parser.parse url.path = some inner →
      OriginOf parser inner origin → OriginOf parser url origin
  | broken {url : Url} : url.scheme = "blob" → parser.parse url.path = none →
      OriginOf parser url .opaqueOrigin
  | other {url : Url} : url.scheme ∉ tupleSchemes → url.scheme ≠ "blob" → OriginOf parser url .opaqueOrigin

/-- The origin of a `Referer`, rebuilt from the parts of its URL. -/
def rebuiltOrigin (url : Url) : String :=
  url.scheme ++ "://" ++ url.host.getD "" ++ ((url.port.map fun p => ":" ++ toString p.toNat).getD "")

def originName : HeaderName := ⟨"origin",rfl⟩
def refererName : HeaderName := ⟨"referer",rfl⟩

section Check
variable (parser : UrlParser) (headers : HeaderMap) (allowed : List String)

/-- The URL of the `Referer`. -/
def refererUrl : Option Url := ((get headers refererName).bind HeaderValue.toStr).bind parser.parse

/-- `origin_allowed`. -/
def originAllowed : Bool :=
  match (get headers originName).bind HeaderValue.toStr with
  | some origin => allowed.contains origin
  | none =>
    match (refererUrl parser headers).map rebuiltOrigin with
    | some origin => allowed.contains origin
    | none => false

end Check

/-- A header value as the router keeps it. -/
def textOf (v : HeaderValue) : Option HeaderText :=
  if visible : v.text.toList.all isVisibleAscii = true then some ⟨v.text,visible⟩ else none

/-- The request with a map of headers. -/
def withHeaders (req : Request) (headers : HeaderMap) : Request :=
  { req with headers := headers.map fun header => (header.1.text,textOf header.2) }

/-- The router over a URL parser. -/
def withParser (r : Router) (parser : UrlParser) : Router :=
  { r with refererOrigin := fun text => (parser.parse text).map rebuiltOrigin }

/-- The answer of the check. -/
def refusal : Response := jsonResponse 403 (errorBody "CSRF: origin not allowed")

section Reading
variable {v : HeaderValue} {headers : HeaderMap} {parser : UrlParser} {r : Router} {req : Request}

theorem isVisibleAscii_byte :
    ∀ n < 256, isVisibleAscii (Char.ofNat n) = ((decide (32 ≤ n) && decide (n < 127)) || decide (n = 9)) := by
  decide +kernel

theorem textOf_text (v : HeaderValue) : (textOf v).map (·.text) = v.toStr := by
  have same : v.text.toList.all isVisibleAscii = v.bytes.all fun b => (32 ≤ b && b < 127) || b = 9 := by
    rw [HeaderValue.text,String.toList_ofList,List.all_map]
    refine List.all_congr rfl fun b => ?_
    rw [Function.comp_apply,isVisibleAscii_byte b.toNat b.toNat_lt]
    simp [UInt8.le_iff_toNat_le,UInt8.lt_iff_toNat_lt,← UInt8.toNat_inj]
  unfold textOf HeaderValue.toStr
  rw [← same]
  split
  · rfl
  · rfl

theorem text_injective {left right : HeaderName} (same : left.text = right.text) : left = right := by
  cases left
  cases right
  cases same
  rfl

theorem header_withHeaders (name : HeaderName) :
    (withHeaders req headers).header name.text = (get headers name).bind HeaderValue.toStr := by
  unfold Request.header withHeaders Multimap.get
  induction headers with
  | nil => rfl
  | cons header rest ih =>
    rw [values_cons]
    by_cases same : header.1 = name
    · simp [same,textOf_text]
    · have other : name.text ≠ header.1.text := fun text => same (text_injective text.symm)
      rw [if_neg same,List.map_cons,List.lookup_cons,beq_false_of_ne other]
      exact ih

/-- Text is the bytes of the header. -/
theorem bytesOf_toStr (read : v.toStr = some text) : Form.bytesOf text = v.bytes := by
  unfold HeaderValue.toStr at read
  split at read
  · rename_i visible
    obtain rfl := Option.some.inj read
    have ascii : ∀ b ∈ v.bytes, b.toNat < 128 := by
      intro b member
      have range := List.all_eq_true.mp visible b member
      simp only [Bool.or_eq_true,Bool.and_eq_true,decide_eq_true_eq,UInt8.lt_iff_toNat_lt] at range
      rcases range with range | rfl
      · exact Nat.lt_trans range.2 (by decide)
      · decide
    rw [HeaderValue.text,Form.bytesOf_ofList,List.flatMap_map]
    have each : ∀ b ∈ v.bytes, String.utf8EncodeChar (Char.ofNat b.toNat) = [b] := by
      intro b member
      have small := ascii b member
      have code : (Char.ofNat b.toNat).toNat = b.toNat := Utf16.toNat_charOfNat (.inl (by omega))
      rw [Form.utf8EncodeChar_ascii (by omega),code,UInt8.ofNat_toNat]
    rw [List.flatMap_congr each]
    exact List.flatMap_singleton' _
  · cases read

end Reading

section Law
variable (parser : UrlParser) (headers : HeaderMap) (allowed : List String)

/-- The value is an entry of the list, byte for byte. -/
def Listed (v : HeaderValue) : Prop := ∃ entry ∈ allowed, v.bytes = Form.bytesOf entry

/-- The serialization of the origin of a URL is an entry of the list. -/
def OriginListed (url : Url) : Prop :=
  ∃ origin, OriginOf parser url origin ∧ origin.asciiSerialization ∈ allowed

/-- What a request must present: origins that are all on the list, or no origin and a `Referer` from an
origin on the list. -/
inductive Presents : Prop
  | origins (given : values headers originName ≠ [])
      (listed : ∀ v ∈ values headers originName, Listed allowed v)
  | referer (absent : values headers originName = []) (refers : refererUrl parser headers = some url)
      (listed : OriginListed parser allowed url)

/-- The headers the check misjudges. -/
inductive Slips : Prop
  | repeated (first : get headers originName = some v) (readable : v.toStr.isSome) (listed : Listed allowed v)
      (member : other ∈ values headers originName) (unlisted : ¬ Listed allowed other)
  | unreadable (first : get headers originName = some v) (unreadable : v.toStr = none)
      (member : other ∈ values headers originName) (unlisted : ¬ Listed allowed other)
      (refers : refererUrl parser headers = some url) (rebuilt : rebuiltOrigin url ∈ allowed)
  | opaqueReferer (absent : values headers originName = []) (refers : refererUrl parser headers = some url)
      (scheme : url.scheme ∉ tupleSchemes) (rebuilt : rebuiltOrigin url ∈ allowed)
      (unlisted : ¬ OriginListed parser allowed url)

end Law

section Proof
variable {parser : UrlParser} {headers : HeaderMap} {allowed : List String} {v : HeaderValue} {url : Url}
  {r : Router} {req : Request}

theorem listed_iff (read : v.toStr = some text) : Listed allowed v ↔ text ∈ allowed := by
  have bytes := bytesOf_toStr read
  constructor
  · rintro ⟨entry,member,same⟩
    obtain rfl := Form.bytesOf_injective (bytes.trans same)
    exact member
  · intro member
    exact ⟨text,member,bytes.symm⟩

theorem portOrKnownDefault_eq (url : Url) : url.portOrKnownDefault = url.port.or (defaultPort url.scheme) := rfl

/-- Of a URL with a tuple origin the rebuilt text is the serialization. -/
theorem rebuilt_tuple (canonical : Canonical url) (host : url.host = some name)
    (port : url.portOrKnownDefault = some p) :
    (Origin.tuple url.scheme name p).asciiSerialization = rebuiltOrigin url := by
  rw [portOrKnownDefault_eq] at port
  unfold rebuiltOrigin Origin.asciiSerialization
  cases own : url.port with
  | none =>
    rw [own] at port
    simp only [Option.none_or] at port
    simp [port,host]
  | some q =>
    rw [own] at port
    simp only [Option.some_or,Option.some.injEq] at port
    subst port
    simp [canonical.port q own,host,String.append_assoc]

theorem defaultPort_tuple : ∀ scheme ∈ tupleSchemes, (defaultPort scheme).isSome := by
  simp [tupleSchemes,defaultPort]

theorem originListed_tuple (canonical : Canonical url) (scheme : url.scheme ∈ tupleSchemes) :
    OriginListed parser allowed url ↔ rebuiltOrigin url ∈ allowed := by
  have others : url.scheme ≠ "blob" := by
    intro blob
    rw [blob] at scheme
    exact absurd scheme (by decide)
  constructor
  · rintro ⟨origin,of,listed⟩
    cases of with
    | tuple _ host port => rwa [rebuilt_tuple canonical host port] at listed
    | blob blob => exact absurd blob others
    | broken blob => exact absurd blob others
    | other opaque' => exact absurd scheme opaque'
  · intro listed
    obtain ⟨name,host⟩ := Option.isSome_iff_exists.mp (canonical.host scheme)
    obtain ⟨p,port⟩ : ∃ p, url.portOrKnownDefault = some p := by
      rw [portOrKnownDefault_eq]
      obtain ⟨q,known⟩ := Option.isSome_iff_exists.mp (defaultPort_tuple url.scheme scheme)
      rw [known]
      cases url.port with
      | none => exact ⟨q,rfl⟩
      | some own => exact ⟨own,rfl⟩
    refine ⟨_,.tuple scheme host port,?_⟩
    rwa [rebuilt_tuple canonical host port]

theorem get_eq_none : get headers originName = none ↔ values headers originName = [] := List.head?_eq_none_iff

theorem mem_of_get (first : get headers originName = some v) : v ∈ values headers originName :=
  List.mem_of_head? first

/-- What passes: a first origin on the list, or none that reads as text and a listed `Referer`. -/
theorem originAllowed_iff : originAllowed parser headers allowed = true ↔
    (∃ v, get headers originName = some v ∧ v.toStr.isSome ∧ Listed allowed v) ∨
      (get headers originName).bind HeaderValue.toStr = none ∧
        ∃ url, refererUrl parser headers = some url ∧ rebuiltOrigin url ∈ allowed := by
  unfold originAllowed
  cases read : (get headers originName).bind HeaderValue.toStr with
  | some text =>
    obtain ⟨v,first,text'⟩ := Option.bind_eq_some_iff.mp read
    simp [first,text',listed_iff text']
  | none =>
    have unread : ¬ ∃ v, get headers originName = some v ∧ v.toStr.isSome ∧ Listed allowed v := by
      rintro ⟨v,first,readable,_⟩
      rw [first] at read
      simp [show v.toStr = none from read] at readable
    rw [or_iff_right unread]
    cases refererUrl parser headers <;> simp

theorem originAllowed_withHeaders :
    Ruuter.originAllowed (withParser r parser) (withHeaders req headers) =
      originAllowed parser headers r.csrfAllowedOrigins := by
  have origin : (withHeaders req headers).header "origin" = (get headers originName).bind HeaderValue.toStr :=
    header_withHeaders originName
  have referer : (withHeaders req headers).header "referer" = (get headers refererName).bind HeaderValue.toStr :=
    header_withHeaders refererName
  unfold Ruuter.originAllowed originAllowed refererUrl
  rw [origin,referer]
  cases (get headers originName).bind HeaderValue.toStr with
  | some text => rfl
  | none => cases (get headers refererName).bind HeaderValue.toStr <;> rfl

/-- Where the check is made, it decides. -/
theorem frontChecks_refusal (plain : isWsUpgrade req = false)
    (method : anyIgnoreCase r.allowedMethodTypes req.method = true)
    (enforced : anyIgnoreCase r.csrfMethods req.method = true) (configured : r.csrfAllowedOrigins ≠ []) :
    frontChecks r req ≠ .refused refusal ↔ Ruuter.originAllowed r req = true := by
  have checked : r.csrfAllowedOrigins.isEmpty = false := List.isEmpty_eq_false_iff.mpr configured
  have other : refusal.status ≠ 428 := by decide
  unfold frontChecks
  rw [plain,method,enforced,checked]
  cases Ruuter.originAllowed r req with
  | false => simp [refusal]
  | true =>
    simp only [Bool.not_true,Bool.not_false,Bool.and_true,Bool.and_false,Bool.false_eq_true,if_false,iff_true]
    split
    · intro same
      injection same with response
      exact other (congrArg Response.status response).symm
    · exact nofun

end Proof

/-- What gets past the check presents a listed origin, unless the headers are of the kinds that slip
through. -/
theorem csrf_fails_closed (parser : UrlParser) (r : Router) (req : Request) (headers : HeaderMap)
    (plain : isWsUpgrade (withHeaders req headers) = false)
    (method : anyIgnoreCase r.allowedMethodTypes req.method = true)
    (enforced : anyIgnoreCase r.csrfMethods req.method = true) (configured : r.csrfAllowedOrigins ≠ []) :
    (frontChecks (withParser r parser) (withHeaders req headers) ≠ .refused refusal →
        Presents parser headers r.csrfAllowedOrigins) ↔
      ¬ Slips parser headers r.csrfAllowedOrigins := by
  rw [frontChecks_refusal (r := withParser r parser) plain method enforced configured,
    originAllowed_withHeaders,originAllowed_iff]
  constructor
  · intro law slips
    cases slips with
    | repeated first readable listed member unlisted =>
      cases law (.inl ⟨_,first,readable,listed⟩) with
      | origins _ all => exact unlisted (all _ member)
      | referer absent => simp [absent] at member
    | unreadable first unreadable member unlisted refers rebuilt =>
      cases law (.inr ⟨by simp [first,unreadable],_,refers,rebuilt⟩) with
      | origins _ all => exact unlisted (all _ member)
      | referer absent => simp [absent] at member
    | opaqueReferer absent refers scheme rebuilt unlisted =>
      have unread : (get headers originName).bind HeaderValue.toStr = none := by rw [get_eq_none.mpr absent]; rfl
      cases law (.inr ⟨unread,_,refers,rebuilt⟩) with
      | origins given => exact given absent
      | referer _ again listed =>
        obtain rfl := Option.some.inj (refers.symm.trans again)
        exact unlisted listed
  · rintro sound (⟨v,first,readable,listed⟩ | ⟨unread,url,refers,rebuilt⟩)
    · refine .origins (List.ne_nil_of_mem (mem_of_get first)) ?_
      intro other member
      by_contra unlisted
      exact sound (.repeated first readable listed member unlisted)
    · cases first : get headers originName with
      | some v =>
        rw [first] at unread
        refine .origins (List.ne_nil_of_mem (mem_of_get first)) ?_
        intro other member
        by_contra unlisted
        exact sound (.unreadable first unread member unlisted refers rebuilt)
      | none =>
        have absent := get_eq_none.mp first
        refine .referer absent refers ?_
        obtain ⟨text,_,parsed⟩ := Option.bind_eq_some_iff.mp refers
        by_cases scheme : url.scheme ∈ tupleSchemes
        · exact (originListed_tuple (parser.canonical text url parsed) scheme).mpr rebuilt
        · by_contra unlisted
          exact sound (.opaqueReferer absent refers scheme rebuilt unlisted)

def adminUrl : Url where
  scheme := "https"
  host := some "admin.example.com"
  path := "/"

/-- A parser that knows one URL. -/
def adminParser : UrlParser where
  parse text := if text = "https://admin.example.com/" then some adminUrl else none
  canonical text url parsed := by
    split at parsed
    · obtain rfl := Option.some.inj parsed
      exact ⟨nofun,fun _ => rfl⟩
    · cases parsed

def adminRouter : Router where
  csrfAllowedOrigins := ["https://admin.example.com"]

def action : Request where
  method := "POST"
  path := "/svc/action"

/-- The headers of a page on the list. -/
def listedOrigin : HeaderMap := [(originName,⟨Form.bytesOf "https://admin.example.com",by decide⟩)]

theorem listed_origin_passes :
    frontChecks (withParser adminRouter adminParser) (withHeaders action listedOrigin) ≠ .refused refusal ∧
      Presents adminParser listedOrigin adminRouter.csrfAllowedOrigins := by
  have passes : frontChecks (withParser adminRouter adminParser) (withHeaders action listedOrigin) ≠
      .refused refusal := by
    rw [frontChecks_refusal rfl (by decide) (by decide) (by decide),originAllowed_withHeaders]
    decide
  have regular : ¬ Slips adminParser listedOrigin adminRouter.csrfAllowedOrigins := by
    intro slips
    cases slips with
    | repeated _ _ _ member unlisted =>
      obtain rfl := List.mem_singleton.mp member
      exact unlisted ⟨_,.head _,rfl⟩
    | unreadable first unreadable =>
      cases first
      exact absurd unreadable (by decide)
    | opaqueReferer absent => exact absurd absent (by decide)
  have law := csrf_fails_closed adminParser adminRouter action listedOrigin rfl (by decide) (by decide) (by decide)
  exact ⟨passes,law.mpr regular passes⟩

/-- An origin that does not read as text, and a `Referer` from the listed origin. -/
def unreadableOrigin : HeaderMap :=
  [(originName,⟨[0xFF],rfl⟩),(refererName,⟨Form.bytesOf "https://admin.example.com/",by decide⟩)]

theorem unreadable_origin_passes :
    frontChecks (withParser adminRouter adminParser) (withHeaders action unreadableOrigin) ≠ .refused refusal ∧
      ¬ Presents adminParser unreadableOrigin adminRouter.csrfAllowedOrigins := by
  constructor
  · rw [frontChecks_refusal rfl (by decide) (by decide) (by decide),originAllowed_withHeaders]
    decide
  · intro presents
    cases presents with
    | origins _ listed =>
      obtain ⟨entry,member,same⟩ := listed ⟨[0xFF],rfl⟩ (.head _)
      obtain rfl := List.mem_singleton.mp member
      exact absurd same (by decide)
    | referer absent => exact absurd absent (by decide)

end Ruuter.Csrf
