import Mathlib.Analysis.SpecialFunctions.Complex.Arg
import Mathlib.Geometry.Euclidean.Angle.Unoriented.TriangleInequality
import SeaRouter.Lib.GreatCircle
import SeaRouter.Utils.IntersectionHelper

/-!
# `utils/IntersectionHelper.java`: distances

Over exact numbers the two ways in which the class calculates a distance give the same:
the formula of `getDistance` with the coordinates, and the one of `distance` with the
vectors.

* `distance_eq`: `distance` is the angle between two vectors, times the radius.
* `getDistance_eq`: `getDistance` is the distance of the vectors of its points.
* `getDistance_spec`: so it is a metric on the points of the sphere, and at most half
  the length of a great circle.
-/

open Matrix GreatCircle

namespace SeaRouter

namespace Utils

/-- `java.lang.Math` without rounding. -/
noncomputable def exact : JavaMath ℝ where
  PI := Real.pi
  sin := Real.sin
  cos := Real.cos
  acos := Real.arccos
  atan2 := fun y x => Complex.arg ⟨x, y⟩
  sqrt := Real.sqrt
  floor := fun x => ⌊x⌋

namespace IntersectionHelper

variable {u v : Fin 3 → ℝ}

/-! ## Vectors -/

theorem crossProductOfVector_eq (u v : Fin 3 → ℝ) : crossProductOfVector u v = u ⨯₃ v := rfl

theorem dotProductOfVector_eq (u v : Fin 3 → ℝ) : dotProductOfVector u v = u ⬝ᵥ v :=
  (dot_eq u v).symm

theorem addVectors_eq (u v : Fin 3 → ℝ) : addVectors u v = u + v := by
  funext i
  fin_cases i <;> rfl

theorem length_eq (v : Fin 3 → ℝ) : length exact v = √(v ⬝ᵥ v) := by
  rw [dot_eq]
  rfl

/-- The vector of a point, with the coordinates in radians. -/
theorem latLonToVector_eq (lat lon : ℝ) :
    latLonToVector exact lat lon =
      ![Real.cos (lat / 180 * Real.pi) * Real.cos (lon / 180 * Real.pi),
        Real.cos (lat / 180 * Real.pi) * Real.sin (lon / 180 * Real.pi),
        Real.sin (lat / 180 * Real.pi)] := rfl

theorem latLonToVector_onSphere (lat lon : ℝ) : OnSphere (latLonToVector exact lat lon) := by
  rw [OnSphere, dot_eq, latLonToVector_eq]
  have h₁ := Real.sin_sq_add_cos_sq (lat / 180 * Real.pi)
  have h₂ := Real.sin_sq_add_cos_sq (lon / 180 * Real.pi)
  simp only [cons_val_zero, cons_val_one, cons_val]
  linear_combination h₁ + Real.cos (lat / 180 * Real.pi) ^ 2 * h₂

/-! ## Angles -/

/-- `Math.atan2(y, x)` of a point of the upper half of a circle. -/
theorem atan2_eq {x y r : ℝ} (hy : 0 ≤ y) (hr : 0 < r) (h : x ^ 2 + y ^ 2 = r ^ 2) :
    exact.atan2 y x = Real.arccos (x / r) := by
  have hnorm : ‖(⟨x, y⟩ : ℂ)‖ = r := by
    rw [Complex.norm_eq_sqrt_sq_add_sq, h, Real.sqrt_sq (le_of_lt hr)]
  have hne : (⟨x, y⟩ : ℂ) ≠ 0 := by
    intro h0
    rw [h0, norm_zero] at hnorm
    linarith
  show Complex.arg ⟨x, y⟩ = _
  rw [Complex.arg_of_im_nonneg_of_ne_zero hy hne, hnorm]

/-- The distance is the angle between the two vectors, times the radius. -/
theorem distance_eq (hu : u ≠ 0) (hv : v ≠ 0) :
    distance exact u v = EARTH_RADIUS * Real.arccos ((u ⬝ᵥ v) / (√(u ⬝ᵥ u) * √(v ⬝ᵥ v))) := by
  have hu' := dot_self_pos hu
  have hv' := dot_self_pos hv
  rw [distance, crossProductOfVector_eq, dotProductOfVector_eq, length_eq]
  congr 1
  apply atan2_eq (Real.sqrt_nonneg _) (mul_pos (Real.sqrt_pos.mpr hu') (Real.sqrt_pos.mpr hv'))
  rw [Real.sq_sqrt (dot_self_nonneg _), cross_dot_self, mul_pow, Real.sq_sqrt (le_of_lt hu'),
    Real.sq_sqrt (le_of_lt hv')]
  ring

theorem onSphere_ne_zero (h : OnSphere u) : u ≠ 0 := by
  intro h0
  rw [OnSphere, h0] at h
  simp at h

/-- For points of the sphere. -/
theorem distance_of_onSphere (hu : OnSphere u) (hv : OnSphere v) :
    distance exact u v = EARTH_RADIUS * Real.arccos (u ⬝ᵥ v) := by
  rw [distance_eq (onSphere_ne_zero hu) (onSphere_ne_zero hv), show u ⬝ᵥ u = 1 from hu,
    show v ⬝ᵥ v = 1 from hv]
  simp

/-! ## The haversine formula -/

/-- Half of the angle, from the square of its sine. -/
theorem two_mul_atan2 {k : ℝ} (h1 : -1 ≤ k) (h2 : k ≤ 1) :
    2 * exact.atan2 (√((1 - k) / 2)) (√(1 - (1 - k) / 2)) = Real.arccos k := by
  have hhalf : √(1 - (1 - k) / 2) = Real.cos (Real.arccos k / 2) := by
    rw [Real.cos_half (by linarith [Real.arccos_nonneg k, Real.pi_pos])
      (Real.arccos_le_pi k), Real.cos_arccos h1 h2]
    congr 1
    ring
  rw [atan2_eq (r := 1) (Real.sqrt_nonneg _) one_pos, div_one, hhalf, Real.arccos_cos]
  · ring
  · linarith [Real.arccos_nonneg k]
  · linarith [Real.arccos_le_pi k, Real.pi_pos]
  · rw [Real.sq_sqrt (by linarith), Real.sq_sqrt (by linarith)]
    ring

/-- The two ways to calculate a distance agree. -/
theorem getDistance_eq (startLat startLong endLat endLong : ℝ) :
    getDistance exact startLat startLong endLat endLong
      = distance exact (latLonToVector exact startLat startLong)
          (latLonToVector exact endLat endLong) := by
  have hstart := latLonToVector_onSphere startLat startLong
  have hend := latLonToVector_onSphere endLat endLong
  have hcos := cosine_mem hstart hend
  set k := latLonToVector exact startLat startLong ⬝ᵥ latLonToVector exact endLat endLong with hk
  rw [distance_of_onSphere hstart hend, ← hk]
  have hhaversine : Real.sin ((endLat - startLat) * (Real.pi / 180) / 2) *
        Real.sin ((endLat - startLat) * (Real.pi / 180) / 2) +
      Real.cos (startLat * (Real.pi / 180)) * Real.cos (endLat * (Real.pi / 180)) *
        Real.sin ((endLong - startLong) * (Real.pi / 180) / 2) *
        Real.sin ((endLong - startLong) * (Real.pi / 180) / 2) = (1 - k) / 2 := by
    have hdegree : ∀ x : ℝ, x / 180 * Real.pi = x * (Real.pi / 180) := fun x => by ring
    have hsquare : ∀ x : ℝ, Real.sin (x / 2) * Real.sin (x / 2) = (1 - Real.cos x) / 2 := by
      intro x
      have h := Real.cos_two_mul (x / 2)
      have h' := Real.sin_sq_add_cos_sq (x / 2)
      rw [mul_div_cancel₀ x two_ne_zero] at h
      linear_combination h' + h / 2
    have hlat : Real.cos ((endLat - startLat) * (Real.pi / 180))
        = Real.cos (startLat * (Real.pi / 180)) * Real.cos (endLat * (Real.pi / 180)) +
          Real.sin (startLat * (Real.pi / 180)) * Real.sin (endLat * (Real.pi / 180)) := by
      rw [sub_mul, Real.cos_sub]
      ring
    have hlong : Real.cos ((endLong - startLong) * (Real.pi / 180))
        = Real.cos (startLong * (Real.pi / 180)) * Real.cos (endLong * (Real.pi / 180)) +
          Real.sin (startLong * (Real.pi / 180)) * Real.sin (endLong * (Real.pi / 180)) := by
      rw [sub_mul, Real.cos_sub]
      ring
    rw [mul_assoc (_ * _), hsquare, hsquare, hlat, hlong, hk, dot_eq, latLonToVector_eq,
      latLonToVector_eq]
    simp only [cons_val_zero, cons_val_one, cons_val, hdegree]
    ring
  have hbounds : -1 ≤ k ∧ k ≤ 1 := by
    constructor <;> nlinarith
  have hformula : getDistance exact startLat startLong endLat endLong
      = 2 * exact.atan2 (√((1 - k) / 2)) (√(1 - (1 - k) / 2)) * EARTH_RADIUS := by
    rw [← hhaversine]
    rfl
  rw [hformula, two_mul_atan2 hbounds.1 hbounds.2, mul_comm]

/-! ## A metric -/

theorem angle_toLp (hu : OnSphere u) (hv : OnSphere v) :
    InnerProductGeometry.angle (WithLp.toLp 2 u) (WithLp.toLp 2 v) = Real.arccos (u ⬝ᵥ v) := by
  have hinner : ∀ a b : Fin 3 → ℝ, inner ℝ (WithLp.toLp 2 a) (WithLp.toLp 2 b) = a ⬝ᵥ b := by
    intro a b
    rw [EuclideanSpace.inner_eq_star_dotProduct, star_trivial, dotProduct_comm]
  have hnorm : ∀ a : Fin 3 → ℝ, OnSphere a → ‖WithLp.toLp 2 a‖ = 1 := by
    intro a ha
    rw [norm_eq_sqrt_real_inner, hinner, show a ⬝ᵥ a = 1 from ha, Real.sqrt_one]
  rw [InnerProductGeometry.angle, hinner, hnorm u hu, hnorm v hv, mul_one, div_one]

theorem arccos_triangle {w : Fin 3 → ℝ} (hu : OnSphere u) (hv : OnSphere v) (hw : OnSphere w) :
    Real.arccos (u ⬝ᵥ w) ≤ Real.arccos (u ⬝ᵥ v) + Real.arccos (v ⬝ᵥ w) := by
  rw [← angle_toLp hu hv, ← angle_toLp hv hw, ← angle_toLp hu hw]
  exact InnerProductGeometry.angle_le_angle_add_angle _ _ _

theorem arccos_dot_eq_zero (hu : OnSphere u) (hv : OnSphere v) :
    Real.arccos (u ⬝ᵥ v) = 0 ↔ u = v := by
  have hnormSq : (u - v) ⬝ᵥ (u - v) = 2 - 2 * (u ⬝ᵥ v) := by
    rw [sub_dotProduct, dotProduct_sub, dotProduct_sub, show u ⬝ᵥ u = 1 from hu,
      show v ⬝ᵥ v = 1 from hv, dotProduct_comm v u]
    ring
  rw [Real.arccos_eq_zero]
  constructor
  · intro h
    by_contra hne
    have hpos := dot_self_pos (sub_ne_zero.mpr hne)
    linarith
  · intro h
    rw [h, show v ⬝ᵥ v = 1 from hv]

theorem getDistance_eq_arccos (startLat startLong endLat endLong : ℝ) :
    getDistance exact startLat startLong endLat endLong
      = EARTH_RADIUS * Real.arccos (latLonToVector exact startLat startLong ⬝ᵥ
          latLonToVector exact endLat endLong) := by
  rw [getDistance_eq]
  exact distance_of_onSphere (latLonToVector_onSphere _ _) (latLonToVector_onSphere _ _)

/-- The haversine formula gives the length of the shorter arc between two points, and this
is a metric on the points of the sphere. -/
theorem getDistance_spec (lat₁ long₁ lat₂ long₂ lat₃ long₃ : ℝ) :
    getDistance exact lat₁ long₁ lat₂ long₂
        = distance exact (latLonToVector exact lat₁ long₁) (latLonToVector exact lat₂ long₂) ∧
      getDistance exact lat₁ long₁ lat₂ long₂ = getDistance exact lat₂ long₂ lat₁ long₁ ∧
      (0 ≤ getDistance exact lat₁ long₁ lat₂ long₂ ∧
        getDistance exact lat₁ long₁ lat₂ long₂ ≤ 6371000 * Real.pi) ∧
      (getDistance exact lat₁ long₁ lat₂ long₂ = 0 ↔
        latLonToVector exact lat₁ long₁ = latLonToVector exact lat₂ long₂) ∧
      getDistance exact lat₁ long₁ lat₃ long₃
        ≤ getDistance exact lat₁ long₁ lat₂ long₂ + getDistance exact lat₂ long₂ lat₃ long₃ := by
  have h₁ := latLonToVector_onSphere lat₁ long₁
  have h₂ := latLonToVector_onSphere lat₂ long₂
  have h₃ := latLonToVector_onSphere lat₃ long₃
  have hradius : (EARTH_RADIUS : ℝ) = 6371000 := rfl
  refine ⟨getDistance_eq _ _ _ _, ?_, ⟨?_, ?_⟩, ?_, ?_⟩
  · rw [getDistance_eq_arccos, getDistance_eq_arccos, dotProduct_comm]
  · rw [getDistance_eq_arccos, hradius]
    exact mul_nonneg (by norm_num) (Real.arccos_nonneg _)
  · rw [getDistance_eq_arccos, hradius]
    exact mul_le_mul_of_nonneg_left (Real.arccos_le_pi _) (by norm_num)
  · rw [getDistance_eq_arccos, hradius, ← arccos_dot_eq_zero h₁ h₂]
    constructor
    · intro h
      exact (mul_eq_zero.mp h).resolve_left (by norm_num)
    · intro h
      rw [h, mul_zero]
  · rw [getDistance_eq_arccos, getDistance_eq_arccos, getDistance_eq_arccos, hradius, ← mul_add]
    exact mul_le_mul_of_nonneg_left (arccos_triangle h₁ h₂ h₃) (by norm_num)

/-- `(int) getDistance(..)`, the length of an edge. -/
noncomputable def edgeLength (startLat startLong endLat endLong : ℝ) : Int :=
  ⌊getDistance exact startLat startLong endLat endLong⌋

theorem edgeLength_comm (lat₁ long₁ lat₂ long₂ : ℝ) :
    edgeLength lat₁ long₁ lat₂ long₂ = edgeLength lat₂ long₂ lat₁ long₁ := by
  rw [edgeLength, edgeLength, getDistance_eq_arccos, getDistance_eq_arccos, dotProduct_comm]

/-- The conversion to `int` does not overflow. -/
theorem edgeLength_bounds (lat₁ long₁ lat₂ long₂ : ℝ) :
    0 ≤ edgeLength lat₁ long₁ lat₂ long₂ ∧ edgeLength lat₁ long₁ lat₂ long₂ ≤ 25484000 := by
  have hradius : (EARTH_RADIUS : ℝ) = 6371000 := rfl
  have hnonneg := Real.arccos_nonneg
    (latLonToVector exact lat₁ long₁ ⬝ᵥ latLonToVector exact lat₂ long₂)
  have hle := Real.arccos_le_pi
    (latLonToVector exact lat₁ long₁ ⬝ᵥ latLonToVector exact lat₂ long₂)
  have hpi := Real.pi_le_four
  rw [edgeLength, getDistance_eq_arccos, hradius]
  constructor
  · exact Int.floor_nonneg.mpr (mul_nonneg (by norm_num) hnonneg)
  · apply Int.floor_le_iff.mpr
    push_cast
    linarith

end IntersectionHelper

end Utils

end SeaRouter
