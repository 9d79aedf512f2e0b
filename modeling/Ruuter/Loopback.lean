import Ruuter.Outbound

/-! A call to the process itself over the wire: how a request that was sent arrives, and what
stands for the JSON library. -/
namespace Ruuter

mutual

/-- A value up to its floats. -/
def Json.shape : Json → Json
  | .null => .null
  | .bool b => .bool b
  | .number (.posInt n) => .number (.posInt n)
  | .number (.negInt k) => .number (.negInt k)
  | .number (.float _) => .number (.float 0)
  | .string s => .string s
  | .array items => .array (shapeList items)
  | .object members => .object (shapeMembers members)

def Json.shapeList : List Json → List Json
  | [] => []
  | item :: rest => item.shape :: shapeList rest

def Json.shapeMembers : List (String × Json) → List (String × Json)
  | [] => []
  | (name,value) :: rest => (name,value.shape) :: shapeMembers rest

end

def utf8 (text : String) : List UInt8 := text.toUTF8.data.toList

/-- The value of a header as text; one that does not read as text becomes empty. -/
def readText (value : String) : Option HeaderText :=
  if visible : value.toList.all isVisibleAscii = true then some ⟨value,visible⟩ else none

/-- The value of a header when it arrives: the receiver drops the blanks and tabs around it. -/
@[irreducible]
def headerText (value : String) : Option HeaderText := readText (String.ofList (trimOws value.toList))

theorem utf8_inj (same : utf8 left = utf8 right) : left = right := by
  apply String.toByteArray_inj.mp
  apply ByteArray.ext
  apply Array.toList_inj.mp
  exact same

theorem utf8_ne_nil (given : text ≠ "") : (utf8 text).isEmpty = false := by
  rw [List.isEmpty_eq_false_iff]
  intro empty
  exact given (utf8_inj empty)

section Arrival
variable (h : Host)

/-- The bytes of a body; forms are encoded by the library. -/
def TcpBody.bytes : TcpBody → Option (List UInt8)
  | .empty => some []
  | .json value => some (utf8 (h.jsonText value))
  | .text content => some (utf8 content)
  | .form _ | .multipart _ => none

/-- The headers of a request as they arrive: names in lower case. -/
def TcpRequest.arrivingHeaders (sent : TcpRequest) : List (String × Option HeaderText) :=
  sent.headers.filterMap fun header => (headerName header.1).map (·,headerText header.2)

/-- A request at the listener: the query behind that of the URL, the values of each header in the
order they were sent, and beside them what the transport adds under names of its own. A body that
is sent as JSON has a content type. Nothing arrives of a request with an invalid header. -/
structure Arrival (parsed : Url) (sent : TcpRequest) (added : List (String × Option HeaderText))
    (req : Request) : Prop where
  method : req.method = sent.method
  path : req.path = parsed.path
  query : req.query = parsed.queryPairs ++ sent.query
  valid : ∀ header ∈ sent.headers, (headerName header.1).isSome = true ∧ (headerValue header.2).isSome = true
  headers : ∀ name, req.headers.filter (·.1 = name) = (sent.arrivingHeaders ++ added).filter (·.1 = name)
  fresh : ∀ header ∈ added, ∀ own ∈ sent.arrivingHeaders, own.1 ≠ header.1
  typed : ∀ value, sent.body = .json value → (∀ own ∈ sent.arrivingHeaders, own.1 ≠ "content-type") →
    added.filter (·.1 = "content-type") = [("content-type",headerText "application/json")]
  body : ∃ bytes, sent.body.bytes h = some bytes ∧ req.body = .ok bytes

end Arrival

mutual

/-- JSON without escapes and numbers. -/
def compact : Json → String
  | .null => "null"
  | .bool b => if b then "true" else "false"
  | .number _ => "0"
  | .string s => "\"" ++ s ++ "\""
  | .array items => "[" ++ compactItems items ++ "]"
  | .object members => "\x7b" ++ compactMembers members ++ "\x7d"

def compactItems : List Json → String
  | [] => ""
  | item :: rest => compact item ++ (if rest.isEmpty then "" else ",") ++ compactItems rest

def compactMembers : List (String × Json) → String
  | [] => ""
  | (name,value) :: rest =>
    "\"" ++ name ++ "\":" ++ compact value ++ (if rest.isEmpty then "" else ",") ++ compactMembers rest

end

def plainHost : Host := { jsonText := compact }

theorem compact_nonempty (value : Json) : compact value ≠ "" := by
  intro empty
  have lengths := congrArg String.length empty
  cases value with
  | bool b => cases b <;> simp [compact] at lengths
  | _ => simp [compact] at lengths

theorem compact_true (printed : compact value = "true") : value = .bool true := by
  have heads := congrArg (fun text : String => text.toList.head?) printed
  cases value with
  | bool b =>
    cases b with
    | true => rfl
    | false => simp [compact] at printed
  | null => simp [compact] at printed
  | number n => simp [compact] at printed
  | string text => simp [compact] at heads
  | array items => simp [compact] at heads
  | object members => simp [compact] at heads

end Ruuter
