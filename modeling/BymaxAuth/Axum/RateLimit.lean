import BymaxAuth.Axum.ClientIp
import BymaxAuth.Lib.Gcra
import Mathlib.Algebra.Order.Ring.Rat
import Mathlib.Data.Rat.Cast.Order
import Mathlib.Tactic.GCongr
import Mathlib.Tactic.Ring

/-!
# The in-process request limit

`rate_limit.rs`: a route's limit is a burst of requests and the window in seconds over which the whole burst is
restored. Each becomes a `governor` quota (`BymaxAuth.Lib.Gcra`), charged to the bucket of the client's address, with a
timer that drops the buckets whose budget is whole again.

The quota restores one request every `per_seconds / burst` seconds, an integer quotient that is at least one. Where the
division leaves a remainder the burst is whole again before the window is over.
-/

namespace BymaxAuth.Axum

open Gcra

/-- What reaches the limiter of a route. -/
inductive Visit (R : Type) where
  /-- A request from this address. -/
  | request (client : IpAddr) (time : R)
  /-- The timer of `spawn_key_gc`. -/
  | sweep (time : R)

/-- As the limiter sees it: a request is charged to the bucket of its address. -/
def Visit.event {R : Type} : Visit R → Event IpAddr R
  | request client time => .request (rateLimitBucket client) time
  | sweep time => .sweep time

open Visit

section Limit

variable {R : Type} [Field R] [LinearOrder R]

variable {limit : RateLimit}

variable [IsStrictOrderedRing R]

end Limit

end BymaxAuth.Axum
