/-!
# `router/RoutingResult.java`

The answer of a router.  The coordinates of the path and the calculation time
are left out: no router reads them.
-/

namespace SeaRouter

/-- The path, the distance and the flag of a `RoutingResult`. -/
structure RoutingResult where
  path : List Int
  overallDistance : Int
  routeFound : Bool
deriving DecidableEq, Repr

namespace RoutingResult

/-- `RoutingResult(path, overallDistance, ..)`. -/
def found (path : List Int) (overallDistance : Int) : RoutingResult :=
  { path := path, overallDistance := overallDistance, routeFound := true }

/-- `RoutingResult()`: no route. -/
def notFound : RoutingResult :=
  { path := [], overallDistance := 0, routeFound := false }

def getOverallDistance (r : RoutingResult) : Int :=
  if !r.routeFound then -1 else r.overallDistance

end RoutingResult

end SeaRouter
