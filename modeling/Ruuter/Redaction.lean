import Ruuter.Context
import Ruuter.JsonText
import Ruuter.Lib.Assoc

/-! What reaches a log line (`src/logging/mod.rs`, `src/logging/redact.rs`): bodies and headers with
the values of the configured names taken out, cut to a size. -/
namespace Ruuter

/-- The fields of `LoggingConfig` that the rendering of bodies and headers reads. -/
structure LoggingConfig where
  maxBodyBytes : Nat := 2048
  redactHeaders : List String :=
    ["authorization","proxy-authorization","cookie","set-cookie","x-api-key","x-auth-token"]
  redactBodyFields : List String :=
    ["password","pass","secret","token","access_token","refresh_token","api_key","authorization"]

namespace Logging

def redactedSentinel : String := "[REDACTED]"

def stepPreviewMaxBytes : Nat := 80

def fieldMatches (name : String) (list : List String) : Bool := list.any (eqIgnoreAsciiCase · name)

mutual

def redactJson (names : List String) : Json → Json
  | .object members => .object (redactMembers names members)
  | .array items => .array (redactItems names items)
  | .null => .null
  | .bool b => .bool b
  | .number n => .number n
  | .string s => .string s

def redactItems (names : List String) : List Json → List Json
  | [] => []
  | item :: rest => redactJson names item :: redactItems names rest

def redactMembers (names : List String) : List (String × Json) → List (String × Json)
  | [] => []
  | (key,value) :: rest =>
    (key,if fieldMatches key names then .string redactedSentinel else redactJson names value) ::
      redactMembers names rest

end

def redactHeaders (headers : StringMap String) (names : List String) : StringMap String :=
  Assoc.mapValues (fun name value => if fieldMatches name names then redactedSentinel else value) headers

/-- CR and LF become spaces. -/
def sanitizeLogValue (s : String) : String :=
  String.ofList (s.toList.map fun c => if c = '\n' ∨ c = '\r' then ' ' else c)

/-- The characters before the last character boundary that is not beyond a number of bytes. -/
def takeBytes : Nat → List Char → List Char
  | room, c :: rest => if c.utf8Size ≤ room then c :: takeBytes (room - c.utf8Size) rest else []
  | _, [] => []

def capAndSanitize (s : String) (maxBytes : Nat) : String :=
  let sanitized := sanitizeLogValue s
  if sanitized.utf8ByteSize ≤ maxBytes then sanitized
  else String.ofList (takeBytes maxBytes sanitized.toList ++ ['…'])

section Render
variable (jsonText : Json → String)

def renderBodyForLog (value : Option Json) (cfg : LoggingConfig) : String :=
  match value with
  | some v => capAndSanitize (jsonText (redactJson cfg.redactBodyFields v)) cfg.maxBodyBytes
  | none => "-"

def previewBodyForLog (value : Option Json) (cfg : LoggingConfig) : Option String :=
  value.bind fun v =>
    if v.isNull then none
    else some (capAndSanitize (jsonText (redactJson cfg.redactBodyFields v)) stepPreviewMaxBytes)

end Render

mutual

/-- Two values that are equal but for what stands under the names, at any depth. -/
def AgreeOutside (names : List String) : Json → Json → Prop
  | .object members, .object others => MembersAgree names members others
  | .array items, .array others => ItemsAgree names items others
  | .null, other => other = .null
  | .bool b, other => other = .bool b
  | .number n, other => other = .number n
  | .string s, other => other = .string s
  | _, _ => False

def ItemsAgree (names : List String) : List Json → List Json → Prop
  | [], [] => True
  | item :: rest, other :: others => AgreeOutside names item other ∧ ItemsAgree names rest others
  | _, _ => False

def MembersAgree (names : List String) : List (String × Json) → List (String × Json) → Prop
  | [], [] => True
  | (key,value) :: rest, (name,other) :: others =>
    key = name ∧ (fieldMatches key names = true ∨ AgreeOutside names value other) ∧ MembersAgree names rest others
  | _, _ => False

end

/-- Two header maps that are equal but for the values of the names. -/
def HeadersAgree (names : List String) (headers others : StringMap String) : Prop :=
  ∀ name, if fieldMatches name names then (name ∈ headers ↔ name ∈ others)
    else headers.lookup name = others.lookup name

variable {names : List String}

mutual

/-- Values that agree outside the names have one redaction. -/
theorem redactJson_eq : (v w : Json) → AgreeOutside names v w → redactJson names v = redactJson names w
  | .object members, .object others, agree => congrArg Json.object (redactMembers_eq members others agree)
  | .array items, .array others, agree => congrArg Json.array (redactItems_eq items others agree)
  | .null, _, agree => by rw [show _ = Json.null from agree]
  | .bool b, _, agree => by rw [show _ = Json.bool b from agree]
  | .number n, _, agree => by rw [show _ = Json.number n from agree]
  | .string s, _, agree => by rw [show _ = Json.string s from agree]

theorem redactItems_eq : (items others : List Json) → ItemsAgree names items others →
    redactItems names items = redactItems names others
  | [], [], _ => rfl
  | item :: rest, other :: others, agree => by
    rw [redactItems,redactItems,redactJson_eq item other agree.1,redactItems_eq rest others agree.2]

theorem redactMembers_eq : (members others : List (String × Json)) → MembersAgree names members others →
    redactMembers names members = redactMembers names others
  | [], [], _ => rfl
  | (key,value) :: rest, (_,other) :: others, ⟨rfl,same,later⟩ => by
    rw [redactMembers,redactMembers,redactMembers_eq rest others later]
    by_cases hidden : fieldMatches key names = true
    · rw [if_pos hidden,if_pos hidden]
    · rw [if_neg hidden,if_neg hidden,redactJson_eq value other (same.resolve_left hidden)]

end

mutual

/-- The redaction of a value agrees with it outside the names. -/
theorem agree_redactJson : (v : Json) → AgreeOutside names v (redactJson names v)
  | .object members => agree_redactMembers members
  | .array items => agree_redactItems items
  | .null => rfl
  | .bool _ => rfl
  | .number _ => rfl
  | .string _ => rfl

theorem agree_redactItems : (items : List Json) → ItemsAgree names items (redactItems names items)
  | [] => trivial
  | item :: rest => ⟨agree_redactJson item,agree_redactItems rest⟩

theorem agree_redactMembers : (members : List (String × Json)) →
    MembersAgree names members (redactMembers names members)
  | [] => trivial
  | (key,value) :: rest => by
    refine ⟨rfl,?_,agree_redactMembers rest⟩
    by_cases hidden : fieldMatches key names = true
    · exact .inl hidden
    · rw [if_neg hidden]
      exact .inr (agree_redactJson value)

end

/-- A value and its redaction have one redaction. -/
theorem redactJson_idem (names : List String) (v : Json) :
    redactJson names (redactJson names v) = redactJson names v :=
  (redactJson_eq v (redactJson names v) (agree_redactJson v)).symm

theorem lookup_redactHeaders (headers : StringMap String) (names : List String) (name : String) :
    (redactHeaders headers names).lookup name =
      (headers.lookup name).map fun value => if fieldMatches name names then redactedSentinel else value :=
  Assoc.lookup_mapValues _ headers name

theorem mem_redactHeaders {headers : StringMap String} : name ∈ redactHeaders headers names ↔ name ∈ headers := by
  rw [← AList.lookup_isSome,lookup_redactHeaders,Option.isSome_map,AList.lookup_isSome]

theorem lookup_redactHeaders_eq {headers others : StringMap String} (agree : HeadersAgree names headers others)
    (name : String) : (redactHeaders headers names).lookup name = (redactHeaders others names).lookup name := by
  have same := agree name
  rw [lookup_redactHeaders,lookup_redactHeaders]
  by_cases hidden : fieldMatches name names = true
  · rw [if_pos hidden,← AList.lookup_isSome,← AList.lookup_isSome] at same
    simp only [hidden,if_true]
    cases first : headers.lookup name <;> cases second : others.lookup name <;> simp_all
  · rw [if_neg hidden] at same
    rw [same]

theorem agree_redactHeaders (headers : StringMap String) :
    HeadersAgree names headers (redactHeaders headers names) := by
  intro name
  by_cases hidden : fieldMatches name names = true
  · rw [if_pos hidden]
    exact mem_redactHeaders.symm
  · rw [if_neg hidden,lookup_redactHeaders]
    simp [hidden]

/-- The two renderings of values that agree outside the names. -/
theorem rendered_alike (jsonText : Json → String) (cfg : LoggingConfig)
    (agree : AgreeOutside cfg.redactBodyFields v w) :
    renderBodyForLog jsonText (some v) cfg = renderBodyForLog jsonText (some w) cfg ∧
      previewBodyForLog jsonText (some v) cfg = previewBodyForLog jsonText (some w) cfg := by
  have one := redactJson_eq v w agree
  have null : v.isNull = w.isNull := by
    cases v with
    | object members => cases w <;> first | rfl | cases agree
    | array items => cases w <;> first | rfl | cases agree
    | null => rw [show w = .null from agree]
    | bool b => rw [show w = .bool b from agree]
    | number n => rw [show w = .number n from agree]
    | string s => rw [show w = .string s from agree]
  unfold renderBodyForLog previewBodyForLog
  simp only [one,null,Option.bind_some,and_self]

/-- What stands under a configured name does not reach a log line, and redaction changes nothing else. -/
theorem redaction_noninterference (jsonText : Json → String) (cfg : LoggingConfig) :
    (∀ v w, AgreeOutside cfg.redactBodyFields v w →
      renderBodyForLog jsonText (some v) cfg = renderBodyForLog jsonText (some w) cfg ∧
        previewBodyForLog jsonText (some v) cfg = previewBodyForLog jsonText (some w) cfg) ∧
      (∀ headers others, HeadersAgree cfg.redactHeaders headers others → ∀ name,
        (redactHeaders headers cfg.redactHeaders).lookup name = (redactHeaders others cfg.redactHeaders).lookup name) ∧
      (∀ names v, AgreeOutside names v (redactJson names v) ∧
        redactJson names (redactJson names v) = redactJson names v) ∧
      ∀ names headers, HeadersAgree names headers (redactHeaders headers names) ∧
        ∀ name, (redactHeaders (redactHeaders headers names) names).lookup name =
          (redactHeaders headers names).lookup name := by
  refine ⟨fun v w => rendered_alike jsonText cfg,fun _ _ => lookup_redactHeaders_eq,fun names v => ?_,
    fun names headers => ?_⟩
  · exact ⟨agree_redactJson v,redactJson_idem names v⟩
  · exact ⟨agree_redactHeaders headers,fun name => (lookup_redactHeaders_eq (agree_redactHeaders headers) name).symm⟩

/-- The compact text of a value without floats. -/
def compactText : Json → String := fun value => String.ofList (value.chars ⟨fun _ => "0",by simp⟩)

/-- Logins of one user, the password at will. -/
def login (password : Json) : Json := .array [.object [("user",.string "a"),("Password",password)]]

/-- Two logins that differ in a password deep inside. -/
theorem passwords_not_logged :
    AgreeOutside ["password"] (login (.string "one")) (login (.object [])) ∧
      renderBodyForLog compactText (some (login (.string "one"))) { redactBodyFields := ["password"] } =
        renderBodyForLog compactText (some (login (.object []))) { redactBodyFields := ["password"] } ∧
      renderBodyForLog compactText (some (login (.object []))) { redactBodyFields := ["password"] } =
        "[\x7b\"user\":\"a\",\"Password\":\"[REDACTED]\"\x7d]" := by
  have agree : AgreeOutside ["password"] (login (.string "one")) (login (.object [])) :=
    ⟨⟨rfl,.inr rfl,rfl,.inl (by decide),trivial⟩,trivial⟩
  exact ⟨agree,((redaction_noninterference compactText { redactBodyFields := ["password"] }).1 _ _ agree).1,by decide⟩

end Logging
end Ruuter
