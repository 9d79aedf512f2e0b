import Ruuter.Loopback
import Ruuter.Internal
import Ruuter.NullAbsent

/-! The request of a self-call beside the same request over the wire: what `execute_dsl` is
handed of its query, headers and body. -/
namespace Ruuter

section Property
variable (h : Host) (client : OutboundClient) (r : Router)

variable (parsed : Url) (request : Outbound) (added : List (String × Option HeaderText)) (req : Request)
  (incoming : Incoming)

end Property

section Params
variable {h : Host} {client : OutboundClient} {r : Router} {parsed : Url} {request : Outbound}
  {added : List (String × Option HeaderText)} {req : Request}

end Params

section Headers
variable {h : Host} {client : OutboundClient} {r : Router} {parsed : Url} {request : Outbound}
  {added : List (String × Option HeaderText)} {req : Request}

end Headers

section Bodies
variable {h : Host} {client : OutboundClient} {r : Router} {parsed : Url} {request : Outbound}
  {added : List (String × Option HeaderText)} {req : Request}

end Bodies

section Links
variable {h : Host} {client : OutboundClient} {r : Router} {request : Outbound} {req : Request}

end Links

section Sample

end Sample
end Ruuter
