import Ruuter.Declaration
import Ruuter.Lib.Assoc

/-! Requests and responses, as far as `src/router/mod.rs` reads and writes them. -/
namespace Ruuter

/-- The characters `HeaderValue::to_str` accepts. -/
def isVisibleAscii (c : Char) : Bool := (' ' ≤ c && c ≤ '~') || c = '\t'

/-- The optional whitespace of HTTP, around a header value and around the items of a list. -/
def isOws (c : Char) : Bool := c = ' ' || c = '\t'

def trimOws (text : List Char) : List Char := ((text.dropWhile isOws).reverse.dropWhile isOws).reverse

/-- A header value that reads as text. -/
structure HeaderText where
  text : String
  visible : text.toList.all isVisibleAscii = true

/-- A request: query pairs decoded, header names in lower case, a header value that does not
read as text as `none`, and what reading the body up to the cap gives. -/
structure Request where
  method : String
  path : String
  query : List (String × String) := []
  headers : List (String × Option HeaderText) := []
  peer : Option String := none
  body : Except String (List UInt8) := .ok []

/-- The first value of a header, when it reads as text. -/
def Request.header (req : Request) (name : String) : Option String :=
  (req.headers.lookup name).bind fun value => value.map (·.text)

def Request.hasHeader (req : Request) (name : String) : Bool := (req.headers.lookup name).isSome

/-- Of several values of one header the last is kept; one that is no text becomes empty. -/
def Request.headersMap (req : Request) : StringMap String :=
  req.headers.foldl (fun map header => map.insert header.1 ((header.2.map (·.text)).getD "")) ∅

def Request.queryMap (req : Request) : StringMap String :=
  req.query.foldl (fun map pair => map.insert pair.1 pair.2) ∅

/-- What is sent back. After an upgrade the connection runs a DSL; a proxied request is
answered by its upstream. -/
inductive Body
  | json (value : Json)
  | text (content : String)
  | upgraded (project : String) (dsl : Dsl) (query headers : StringMap String)
  | forwarded (proxy : ProxyDeclaration) (route traceparent : String)

structure Response where
  status : UInt16
  headers : StringMap String := ∅
  body : Body

/-- The parts of two responses that a client can compare: the order of headers is none. -/
structure Response.Same (left right : Response) : Prop where
  status : left.status = right.status
  headers : ∀ name, left.headers.lookup name = right.headers.lookup name
  body : left.body = right.body

def contentType (mime : String) : StringMap String := (∅ : StringMap String).insert "content-type" mime

def jsonResponse (status : UInt16) (value : Json) : Response :=
  { status, headers := contentType "application/json", body := .json value }

def textResponse (status : UInt16) (content : String) : Response :=
  { status, headers := contentType "text/plain; charset=utf-8", body := .text content }

def errorBody (message : String) : Json := .object [("error",.string message)]

/-- `StatusCode::from_u16`, with a fallback for what is no status code. -/
def statusFromU16 (status fallback : UInt16) : UInt16 :=
  if 100 ≤ status && status ≤ 999 then status else fallback

/-- `HeaderName::try_from`: a token, in lower case. -/
def headerName (name : String) : Option String :=
  if name ≠ "" ∧ name.toList.all fun c =>
      c.isAlphanum || "!#$%&'*+-.^_\x60|~".toList.contains c then
    some (Text.toAsciiLowercase name)
  else none

/-- `HeaderValue::try_from`: no control character but the tab. -/
def headerValue (value : String) : Option String :=
  if value.toList.all fun c => (' ' ≤ c && c ≠ '\x7f') || c = '\t' then some value else none

/-- A header whose name or value is not valid is left out. -/
def Response.insertHeader (response : Response) (name value : String) : Response :=
  match headerName name, headerValue value with
  | some name, some value => { response with headers := response.headers.insert name value }
  | _, _ => response

def Response.insertHeaders (response : Response) (extra : StringMap String) : Response :=
  extra.entries.foldl (fun response entry => response.insertHeader entry.1 entry.2) response

section Insert
variable {response : Response}

@[simp] theorem insertHeader_status (name value : String) :
    (response.insertHeader name value).status = response.status := by
  unfold Response.insertHeader
  split <;> rfl

@[simp] theorem insertHeader_body (name value : String) :
    (response.insertHeader name value).body = response.body := by
  unfold Response.insertHeader
  split <;> rfl

@[simp] theorem insertHeaders_status (extra : StringMap String) :
    (response.insertHeaders extra).status = response.status := by
  exact Assoc.foldl_keeps (fun _ _ => insertHeader_status ..) extra.entries response

@[simp] theorem insertHeaders_body (extra : StringMap String) :
    (response.insertHeaders extra).body = response.body := by
  exact Assoc.foldl_keeps (fun _ _ => insertHeader_body ..) extra.entries response

end Insert

theorem headerName_eq (named : headerName name = some lower) : lower = Text.toAsciiLowercase name := by
  unfold headerName at named
  split at named
  · exact (Option.some.inj named).symm
  · cases named

theorem headerName_lowered (named : headerName name = some lower) : Text.toAsciiLowercase lower = lower := by
  rw [headerName_eq named]
  exact Text.toAsciiLowercase_idem name

/-- Text that came from a header is a valid header value. -/
theorem headerValue_text (value : HeaderText) : headerValue value.text = some value.text := by
  have valid : value.text.toList.all (fun c => (' ' ≤ c && c ≠ '\x7f') || c = '\t') = true := by
    rw [List.all_eq_true]
    intro c member
    have visible := List.all_eq_true.mp value.visible c member
    simp only [isVisibleAscii,Bool.or_eq_true,Bool.and_eq_true,decide_eq_true_eq] at visible ⊢
    rcases visible with ⟨low,high⟩ | tab
    · refine .inl ⟨low,?_⟩
      rintro rfl
      exact absurd high (by decide)
    · exact .inr tab
  unfold headerValue
  rw [if_pos valid]

end Ruuter
