import SeaRouter.CoastlineGrid.PointInWaterChecker
import SeaRouter.DijkstraGrid.GridCreator
import SeaRouter.DijkstraGrid.NearestNode
import SeaRouter.Utils.Distance

/-!
# The distances on the sphere

`createGrid` and the search for the nearest node are modelled for any distance.  With the
one of `utils/IntersectionHelper.java` over exact numbers they have what the results about
them ask for.

* `sphereLength_comm`, `sphereLength_isInt`: the length of an edge is the same in both
  directions and an int.
* `sphere_bounded`: every distance is below `Double.MAX_VALUE`.
* `nearest_onSphere`: the search finds the nearest node of the square on the sphere.
-/

namespace SeaRouter

open Java Utils.IntersectionHelper

/-- The length of an edge, as `createGrid` calculates it. -/
noncomputable def GridCreator.sphereLength (a b : GridNode) : Int :=
  edgeLength a.latitude a.longitude b.latitude b.longitude

theorem GridCreator.sphereLength_comm (a b : GridNode) : sphereLength a b = sphereLength b a :=
  edgeLength_comm _ _ _ _

theorem GridCreator.sphereLength_isInt (a b : GridNode) : IsInt (sphereLength a b) := by
  obtain ⟨hlo, hhi⟩ := edgeLength_bounds a.latitude a.longitude b.latitude b.longitude
  constructor
  · exact le_trans (by decide) hlo
  · exact le_trans hhi (by decide)

namespace Grid

/-- The largest `double` is `2 ^ 1024 - 2 ^ 971`. -/
noncomputable def sphere : Sphere ℚ ℝ where
  intValue := toInt
  getDistance := fun startLat startLong endLat endLong =>
    getDistance Utils.exact startLat startLong endLat endLong
  maxValue := ((2 ^ 1024 - 2 ^ 971 : Nat) : ℝ)

theorem sphere_bounded (startLat startLong endLat endLong : ℚ) :
    sphere.getDistance startLat startLong endLat endLong < sphere.maxValue := by
  have hradius : (EARTH_RADIUS : ℝ) = 6371000 := rfl
  have harccos := Real.arccos_le_pi
    (latLonToVector Utils.exact startLat startLong ⬝ᵥ latLonToVector Utils.exact endLat endLong)
  have hpi := Real.pi_le_four
  have hmax : (25484000 : ℝ) < ((2 ^ 1024 - 2 ^ 971 : Nat) : ℝ) := by
    exact_mod_cast (by decide +kernel : 25484000 < 2 ^ 1024 - 2 ^ 971)
  show getDistance Utils.exact startLat startLong endLat endLong
    < ((2 ^ 1024 - 2 ^ 971 : Nat) : ℝ)
  rw [getDistance_eq_arccos, hradius]
  linarith

/-- No node of the square of the point is nearer to it, on the sphere, than the one that is
found. -/
theorem nearest_onSphere {nodes : Node ℚ} (hlen : nodes.longitude.length = nodes.latitude.length)
    (latitude longitude : ℚ) :
    ∃ v, getNearestGridNodeByCoordinates sphere nodes latitude longitude = .ok v ∧
      Nearest sphere nodes latitude longitude v :=
  getNearestGridNodeByCoordinates_spec hlen sphere_bounded latitude longitude

end Grid

end SeaRouter
