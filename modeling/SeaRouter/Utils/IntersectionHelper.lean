import Mathlib.Algebra.Order.Field.Basic
import Mathlib.Algebra.Order.Group.Unbundled.Abs
import Mathlib.Data.Fin.VecNotation

/-!
# `utils/IntersectionHelper.java`

Calculations on a sphere.  Instead of `double` the coordinates are numbers of any
ordered field, and the functions of `java.lang.Math` are given by a `JavaMath`.  A
`double[3]` is a function on `Fin 3`.
-/

namespace SeaRouter

namespace Utils

/-- What the class uses of `java.lang.Math`. -/
structure JavaMath (φ : Type) where
  PI : φ
  sin : φ → φ
  cos : φ → φ
  acos : φ → φ
  atan2 : φ → φ → φ
  sqrt : φ → φ
  floor : φ → φ

variable {φ : Type} [Field φ] [LinearOrder φ] (M : JavaMath φ)

/-- `Math.toRadians(x)`. -/
def JavaMath.toRadians (x : φ) : φ := x / 180 * M.PI

/-- `DoubleMath.fuzzyEquals(a, b, tolerance)`. -/
def fuzzyEquals (a b tolerance : φ) : Bool := |a - b| ≤ tolerance

namespace IntersectionHelper

/-- `EARTH_RADIUS_METERS` and `EARTH_RADIUS`. -/
def EARTH_RADIUS : φ := 6371000

def latLonToVector (lat lon : φ) : Fin 3 → φ :=
  let lat := M.toRadians lat
  let lon := M.toRadians lon
  let latCos := M.cos lat
  ![latCos * M.cos lon, latCos * M.sin lon, M.sin lat]

def addVectors (a b : Fin 3 → φ) : Fin 3 → φ := ![a 0 + b 0, a 1 + b 1, a 2 + b 2]

def crossProductOfVector (a u : Fin 3 → φ) : Fin 3 → φ :=
  ![a 1 * u 2 - a 2 * u 1, a 2 * u 0 - a 0 * u 2, a 0 * u 1 - a 1 * u 0]

def dotProductOfVector (a b : Fin 3 → φ) : φ := a 0 * b 0 + a 1 * b 1 + a 2 * b 2

def length (v : Fin 3 → φ) : φ := M.sqrt (v 0 * v 0 + v 1 * v 1 + v 2 * v 2)

def distance (v u : Fin 3 → φ) : φ :=
  EARTH_RADIUS * M.atan2 (length M (crossProductOfVector v u)) (dotProductOfVector v u)

/-- `lineIntersection(..)`, with the array `target` as it is afterwards. -/
def lineIntersection (sourceA destA sourceB destB target : Fin 3 → φ) : Bool × (Fin 3 → φ) :=
  let c1 := crossProductOfVector sourceA destA
  let c2 := crossProductOfVector sourceB destB
  let i1 := crossProductOfVector c1 c2
  let i2 := crossProductOfVector c2 c1
  let midPoint := addVectors sourceA (addVectors destA (addVectors sourceB destB))
  let dot := dotProductOfVector midPoint i1
  if 0 < dot then (true, i1) else if dot < 0 then (true, i2) else (false, target)

def isIntersectionInGreatCircleSegment (source dest inter : Fin 3 → φ) : Bool :=
  let arcLength := distance M source dest
  distance M inter source ≤ arcLength ∧ distance M inter dest ≤ arcLength

def greatCircleSegmentIntersection (sourceA destA sourceB destB target : Fin 3 → φ) : Bool :=
  let (intersect, target) := lineIntersection sourceA destA sourceB destB target
  if isIntersectionInGreatCircleSegment M sourceA destA target &&
      isIntersectionInGreatCircleSegment M sourceB destB target then intersect
  else false

def arcsIntersect (latSourceA lonSourceA latDestA lonDestA latSourceB lonSourceB : φ)
    (latDestB lonDestB : φ) : Bool :=
  if fuzzyEquals lonSourceA lonDestA (1 / 10000000) &&
      fuzzyEquals lonDestA lonSourceB (1 / 10000000) &&
      fuzzyEquals lonSourceB lonDestB (1 / 10000000) then true
  else
    greatCircleSegmentIntersection M (latLonToVector M latSourceA lonSourceA)
      (latLonToVector M latDestA lonDestA) (latLonToVector M latSourceB lonSourceB)
      (latLonToVector M latDestB lonDestB) ![0, 0, 0]

def degreeCoordinateToRadian (degreeCoord : φ) : φ := degreeCoord * M.PI / 180

def coordinateBetweenValues (coordinateToCheck minValue maxValue : φ) : Bool :=
  if fuzzyEquals coordinateToCheck minValue (1 / 10000000) &&
      fuzzyEquals minValue maxValue (1 / 10000000) then true
  else if 175 < maxValue ∧ minValue < -175 then
    -- special case with wraparound has to be considered
    (coordinateToCheck < 180 ∧ maxValue < coordinateToCheck) ∨
      (-180 < coordinateToCheck ∧ coordinateToCheck < minValue)
  else coordinateToCheck < maxValue ∧ minValue < coordinateToCheck

def mod (y x : φ) : φ := y - x * M.floor (y / x)

/-- The part of `crossesLatitude` after the conversions to radians. -/
def crossesLatitudeRadian (pointALat pointALon pointBLat pointBLon latToIntersect : φ)
    (lonValStart lonValDest : φ) : Bool :=
  let latMax := max pointALat pointBLat
  let latMin := min pointALat pointBLat
  if !coordinateBetweenValues latToIntersect latMin latMax then false
  else
    let lonDiff := pointALon - pointBLon
    let A := M.sin pointALat * M.cos pointBLat * M.cos latToIntersect * M.sin lonDiff
    let B := M.sin pointALat * M.cos pointBLat * M.cos latToIntersect * M.cos lonDiff -
      M.cos pointALat * M.sin pointBLat * M.cos latToIntersect
    let C := M.cos pointALat * M.cos pointBLat * M.sin latToIntersect * M.sin lonDiff
    let lon := M.atan2 B A
    let sumABsquared := M.sqrt (A * A + B * B)
    if sumABsquared < |C| then false
    else
      let dlon := M.acos (C / sumABsquared)
      -- intersection longitudes
      let crossLonA := mod M (pointALon + dlon + lon + M.PI) (2 * M.PI) - M.PI
      let crossLonB := mod M (pointALon - dlon + lon + M.PI) (2 * M.PI) - M.PI
      let maxLon := max pointALon pointBLon
      let minLon := min pointALon pointBLon
      let lonMax := max lonValStart lonValDest
      let lonMin := min lonValStart lonValDest
      (coordinateBetweenValues crossLonA minLon maxLon &&
          coordinateBetweenValues crossLonA lonMin lonMax) ||
        (coordinateBetweenValues crossLonB minLon maxLon &&
          coordinateBetweenValues crossLonB lonMin lonMax)

/-- An angle that is brought between `-π` and `π`, as `crossesLatitude` does with the
longitudes of the intersections. -/
def wrap (y : φ) : φ := mod M (y + M.PI) (2 * M.PI) - M.PI

def crossesLatitude (pointALat pointALon pointBLat pointBLon latToIntersect : φ)
    (lonValStart lonValDest : φ) : Bool :=
  if fuzzyEquals pointALat latToIntersect (1 / 10000000) ||
      fuzzyEquals pointBLat latToIntersect (1 / 10000000) then true
  else if max pointALat pointBLat < latToIntersect ∨ latToIntersect < min pointALat pointBLat then
    -- the arc may be vertical
    false
  else
    crossesLatitudeRadian M (degreeCoordinateToRadian M pointALat)
      (degreeCoordinateToRadian M pointALon) (degreeCoordinateToRadian M pointBLat)
      (degreeCoordinateToRadian M pointBLon) (degreeCoordinateToRadian M latToIntersect)
      (degreeCoordinateToRadian M lonValStart) (degreeCoordinateToRadian M lonValDest)

def convertToRadian (coordinate : φ) : φ := coordinate * (M.PI / 180)

def getDistance (startLat startLong endLat endLong : φ) : φ :=
  let radianStartLat := convertToRadian M startLat
  let radianEndLat := convertToRadian M endLat
  let latDifference := convertToRadian M (endLat - startLat)
  let longDifference := convertToRadian M (endLong - startLong)
  let haversine := M.sin (latDifference / 2) * M.sin (latDifference / 2) +
    M.cos radianStartLat * M.cos radianEndLat * M.sin (longDifference / 2) *
      M.sin (longDifference / 2)
  let c := 2 * M.atan2 (M.sqrt haversine) (M.sqrt (1 - haversine))
  c * EARTH_RADIUS

end IntersectionHelper

end Utils

end SeaRouter
