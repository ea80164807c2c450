/-
  Comparing the caches with the store. The listing and the reading of the cache are not one step, so
  a write in between shows up as a difference.
-/
import GatewayStore.Hub.Program
import GatewayStore.Report
import GatewayStore.Store.Client

namespace GatewayStore

/-- The comparison of a listing with a cache. -/
def Cache.compare (c : Cache) (listing : Listing) : KindReport :=
  diff (listing.keys.map fun k => (k.key, k.value)) c.contents

/-- Compares the kinds in order and adds them to a report. -/
def verifyFrom (client : Client) (report : Report) : List Kind → Program Report
  | [] => return report
  | kind :: rest => do
    let listing ← Program.request (.range (client.keyPrefix kind))
    match (← Program.caches) kind with
    | none => .failed (.unknownKind kind.name)
    | some cache => verifyFrom client (report.add kind.name (cache.compare listing)) rest

/-- Compares every kind of a list. -/
def verify (client : Client) (kinds : List Kind) : Program Report :=
  verifyFrom client .empty kinds

end GatewayStore
