import Mathlib.Data.List.TakeWhile
import Std.Data.String.ToNat
import Ruuter.Ssrf

/-! What an entry of `internal_requests.allowed_urls` pins (`allow_entry_matches`): the path and
the query that it parses to, against the path and the query of the requests it admits. -/
namespace Ruuter

/-- A path is another one or continues it behind a slash. -/
def PathWithin (pinned path : List Char) : Prop :=
  path = pinned ∨ pinned ++ ['/'] <+: path ∨ (pinned.getLast? = some '/' ∧ pinned <+: path)

/-- A query is another one or continues it behind `&`. -/
def QueryWithin (pinned : List Char) (query : Option String) : Prop :=
  ∃ q, query = some q ∧ (q.toList = pinned ∨ pinned ++ ['&'] <+: q.toList)

/-- The request is within the path and the query of the entry. -/
structure Pinned (entryUrl url : Url) : Prop where
  path : entryUrl.query = none → PathWithin entryUrl.path.toList url.path.toList
  query : ∀ q, entryUrl.query = some q → q ≠ "" →
    url.path = entryUrl.path ∧ QueryWithin q.toList url.query

/-- The path of the request goes on with `&` where the entry ends. -/
def SlipsBehindPath (entryUrl url : Url) : Prop :=
  entryUrl.query = none ∧ entryUrl.path.toList.getLast? ≠ some '/' ∧
    entryUrl.path.toList ++ ['&'] <+: url.path.toList

/-- The query of the request goes on where the entry ends, with `/` or `?`, or behind one of them. -/
def SlipsBehindQuery (entryUrl url : Url) : Prop :=
  ∃ q c rest, q ≠ [] ∧ entryUrl.query = some (String.ofList q) ∧ url.path = entryUrl.path ∧
    url.query = some (String.ofList (q ++ c :: rest)) ∧ c ≠ '&' ∧
    (c = '/' ∨ c = '?' ∨ q.getLast? = some '/' ∨ q.getLast? = some '?')

/-- What is cut out of the text of an entry is the path and the query it parses to. -/
def WellRead (entry : String) (entryUrl : Url) : Prop :=
  entryTail entry ≠ "" ∧ entryTail entry = reqUrlPathQuery entryUrl

/-- The request is the tail of an entry or goes on behind it at a closing character. -/
def Continues (tail : List Char) (url : Url) : Prop :=
  ∃ rest, (reqUrlPathQuery url).toList = tail ++ rest ∧
    (['/','?','#'].any (tail.getLast? == some ·) = true ∨
      rest.head?.all (['/','?','#','&'].contains ·) = true)

/-- The entry parses to another path or query than is cut out of its text, and the request goes on
behind the one and not within the other. -/
structure SlipsByText (entry : String) (entryUrl url : Url) : Prop where
  misread : ¬ WellRead entry entryUrl
  goes : entryTail entry ≠ "" → Continues (entryTail entry).toList url
  outside : ¬ Pinned entryUrl url

/-- A request of the same origin slips through: it goes on behind the end of the entry in a way
the check takes for a boundary, or the check misreads the entry. -/
def Slips (client : OutboundClient) (entry : String) (url : Url) : Prop :=
  ∃ entryUrl origin, client.parseUrl entry = .ok entryUrl ∧ urlOrigin entryUrl = some origin ∧
    urlOrigin url = some origin ∧
    (WellRead entry entryUrl ∧ (SlipsBehindPath entryUrl url ∨ SlipsBehindQuery entryUrl url) ∨
      SlipsByText entry entryUrl url)

section Origins

end Origins

section Tails
variable {entry : String} {entryUrl url : Url}

end Tails

end Ruuter
