import Ruuter.GuardRun
import Ruuter.Parser

/-! The four entry surfaces: what has to happen before a DSL body, a proxied request, a
WebSocket upgrade or the target of a `template` step is reached. -/
namespace Ruuter

inductive Surface
  | executeDsl | proxy | wsUpgrade | template
deriving DecidableEq

namespace Surface

/-- The guard loop of a surface. -/
def guards (surface : Surface) (run : Runner) (ctx : Ctx) (method : String)
    (chain : List (String × Dsl)) : M (Option Refusal) :=
  match surface with
  | .executeDsl => executeDslGuards run ctx method chain
  | .proxy => proxyGuards run ctx method chain
  | .wsUpgrade => wsUpgradeGuards run ctx chain
  | .template => templateGuards run ctx chain

/-- A `template` step shares the guard stack of its caller; the other surfaces start a
context of their own. -/
def start (surface : Surface) (s : St) : St :=
  match surface with
  | .executeDsl | .proxy | .wsUpgrade => { s with guardStack := [] }
  | .template => s

/-- The guards that have to run: all of them, or those not on the caller's stack. -/
def due (surface : Surface) (s : St) (chain : List (String × Dsl)) : List (String × Dsl) :=
  match surface with
  | .executeDsl | .proxy | .wsUpgrade => chain
  | .template => pending true s chain

end Surface

variable {run : Runner} {ctx : Ctx} {contract : Dsl → Except RuuterError Unit}

/-- A loop that checks contracts. -/
theorem admitted_of_reached (balanced : Balanced run)
    (reached : Reached (guarded (guardLoop run ctx skip contract chain) refuse) s) :
    ∃ u, Admitted run ctx contract (pending skip s chain) s u := by
  obtain ⟨u,looped⟩ := reached_guarded.mp reached
  exact ⟨u,(guardLoop_admitted balanced looped).1⟩

end Ruuter
