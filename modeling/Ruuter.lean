import Ruuter.HotReload
import Ruuter.Reload
import Ruuter.SingleFlight
import Ruuter.Surfaces
import Ruuter.Internal
import Ruuter.NestedGrammar
import Ruuter.Accounting
import Ruuter.Detach
import Ruuter.Snapshot
import Ruuter.Delivery
import Ruuter.GuardStack
import Ruuter.EffectiveDeclaration
import Ruuter.SelfCall
import Ruuter.Nesting
import Ruuter.Denial
import Ruuter.Allow
import Ruuter.ResponseHeaders
import Ruuter.Transitions
import Ruuter.BaseFields
import Ruuter.Ssrf
import Ruuter.Outbound
import Ruuter.Transport
import Ruuter.NullAbsent
import Ruuter.ResponseParity
import Ruuter.RequestParity
import Ruuter.Lib.Multimap
import Ruuter.Proxy
import Ruuter.RegistryBound
import Ruuter.ProxyHeaders
import Ruuter.Lint
import Ruuter.OpenApi
import Ruuter.ProxyCapacity
import Ruuter.WsConnections
import Ruuter.DeclarationDemands
import Ruuter.RequiredFields
import Ruuter.Loader
import Ruuter.LoadSlots
import Ruuter.LoadOrder
import Ruuter.GuardCoverage
import Ruuter.TransportParity
import Ruuter.LongestPrefix
import Ruuter.LoopCaps
import Ruuter.Lib.Cidr
import Ruuter.PrivateNetworks
import Ruuter.AllowEntries
import Ruuter.Lib.Metering
import Ruuter.ProxyMetering
import Ruuter.DeclarationContract
import Ruuter.Satisfiable
import Ruuter.HeaderCase
import Ruuter.Lib.Pool
import Ruuter.Lib.Lockstep
import Ruuter.Lib.Linearize
import Ruuter.StateLinear
import Ruuter.SourceHealth
import Ruuter.UdsPool
import Ruuter.GuardGate
import Ruuter.Multipart
import Ruuter.Footprint
import Ruuter.StateIsolation
import Ruuter.ParallelHttp
import Ruuter.DanglingReferences
import Ruuter.LiteralFastPath
import Ruuter.Reconnect
import Ruuter.Redaction
import Ruuter.SocketUrl
import Ruuter.MediaTypes
import Ruuter.ConstantReferences
import Ruuter.JsValue
import Ruuter.ScriptBindings
import Ruuter.ScriptResults
import Ruuter.OpenApiPaths
import Ruuter.JsonText
import Ruuter.StepJson
import Ruuter.StepRoundTrip
import Ruuter.StepReadBack
import Ruuter.DriftAudit
import Ruuter.LoadEdits
import Ruuter.Watcher
import Ruuter.Lib.Ecma
import Ruuter.LiteralEncoding
import Ruuter.Lib.FormUrlencoded
import Ruuter.QueryEncoding
import Ruuter.ClientOrigin
import Ruuter.LogAttributes
import Ruuter.TriggerDispatch
import Ruuter.StatusDefaults
import Ruuter.Csrf
import Ruuter.ByteScan
import Ruuter.ScriptSegments
import Ruuter.ExpressionRegistry
import Ruuter.QuickJsSession
import Ruuter.Lib.Closure
import Ruuter.LintReachability
import Ruuter.WsDelivery
import Ruuter.WsSlowReaders
import Ruuter.RunLogic
import Ruuter.ForwardRuns
import Ruuter.IterateRule
import Ruuter.ReloadReach
import Ruuter.RequestReach
import Ruuter.ConstantsFile
import Ruuter.TraceIdentity
