import Mathlib.Analysis.SpecialFunctions.Trigonometric.Complex
import SeaRouter.Utils.Intersection

/-!
# `utils/IntersectionHelper.java`: arcs and parallels

`crossesLatitude` calculates the two longitudes at which a great circle has a given
latitude, and looks whether one of them is between those of the ends of the arc.

* `exists_crossLon_iff`: over exact numbers the two longitudes are those of all points of
  the great circle that have this latitude.
* `mem_arc_iff_between`: such a point is on the arc when its longitude is between those of
  the ends, unless the arc crosses the 180th meridian.
* `crossesLatitude_iff`: so `crossesLatitude` finds out whether the arc crosses the
  parallel between two given longitudes.
-/

open Matrix GreatCircle

namespace SeaRouter

namespace Utils

namespace IntersectionHelper

/-- The vector of a point whose coordinates are in radians. -/
noncomputable def toVector (lat lon : ℝ) : Fin 3 → ℝ :=
  ![Real.cos lat * Real.cos lon, Real.cos lat * Real.sin lon, Real.sin lat]

theorem latLonToVector_eq_toVector (lat lon : ℝ) :
    latLonToVector exact lat lon
      = toVector (degreeCoordinateToRadian exact lat) (degreeCoordinateToRadian exact lon) := by
  have hdegree : ∀ x : ℝ, x / 180 * Real.pi = x * Real.pi / 180 := fun x => by ring
  rw [latLonToVector_eq, hdegree, hdegree]
  rfl

theorem toVector_onSphere (lat lon : ℝ) : OnSphere (toVector lat lon) := by
  rw [OnSphere, dot_eq, toVector]
  have h₁ := Real.sin_sq_add_cos_sq lat
  have h₂ := Real.sin_sq_add_cos_sq lon
  simp only [cons_val_zero, cons_val_one, cons_val]
  linear_combination h₁ + Real.cos lat ^ 2 * h₂

/-! ## The longitudes of a parallel -/

theorem wrap_eq (y : ℝ) : ∃ k : ℤ, wrap exact y = y - 2 * k * Real.pi := by
  refine ⟨⌊(y + Real.pi) / (2 * Real.pi)⌋, ?_⟩
  show y + Real.pi - 2 * Real.pi * (⌊(y + Real.pi) / (2 * Real.pi)⌋ : ℝ) - Real.pi = _
  ring

theorem wrap_bounds (y : ℝ) : -Real.pi ≤ wrap exact y ∧ wrap exact y < Real.pi := by
  have hpos : (0 : ℝ) < 2 * Real.pi := by linarith [Real.pi_pos]
  have hlo := Int.floor_le ((y + Real.pi) / (2 * Real.pi))
  have hhi := Int.lt_floor_add_one ((y + Real.pi) / (2 * Real.pi))
  rw [le_div_iff₀ hpos] at hlo
  rw [div_lt_iff₀ hpos] at hhi
  show -Real.pi ≤ y + Real.pi - 2 * Real.pi * (⌊(y + Real.pi) / (2 * Real.pi)⌋ : ℝ) - Real.pi ∧
    y + Real.pi - 2 * Real.pi * (⌊(y + Real.pi) / (2 * Real.pi)⌋ : ℝ) - Real.pi < Real.pi
  constructor
  · linarith
  · linarith

/-- There is one such longitude only. -/
theorem eq_wrap {x y : ℝ} {k : ℤ} (hlo : -Real.pi ≤ x) (hhi : x < Real.pi)
    (h : x = y + 2 * k * Real.pi) : x = wrap exact y := by
  obtain ⟨m, hm⟩ := wrap_eq y
  obtain ⟨hlo', hhi'⟩ := wrap_bounds y
  have hdiff : x - wrap exact y = ((k + m : ℤ) : ℝ) * (2 * Real.pi) := by
    rw [h, hm]
    push_cast
    ring
  have hpi := Real.pi_pos
  have hlt : ((k + m : ℤ) : ℝ) < 1 := by
    by_contra hge
    have := mul_le_mul_of_nonneg_right (not_lt.mp hge) (le_of_lt (by linarith : 0 < 2 * Real.pi))
    linarith
  have hgt : (-1 : ℝ) < ((k + m : ℤ) : ℝ) := by
    by_contra hle
    have := mul_le_mul_of_nonneg_right (not_lt.mp hle) (le_of_lt (by linarith : 0 < 2 * Real.pi))
    linarith
  have hzero : k + m = 0 := by
    have h1 : k + m < 1 := by exact_mod_cast hlt
    have h2 : -1 < k + m := by exact_mod_cast hgt
    omega
  rw [hzero, Int.cast_zero, zero_mul] at hdiff
  linarith

/-- The solutions of `a * cos x + b * sin x = c` between `-π` and `π`, with an offset. -/
theorem solve_iff {a b c offset x : ℝ} (hpos : 0 < a ^ 2 + b ^ 2) (hlo : -Real.pi ≤ x)
    (hhi : x < Real.pi) :
    a * Real.cos (x - offset) + b * Real.sin (x - offset) = c ↔
      |c| ≤ √(a * a + b * b) ∧
        (x = wrap exact (offset + Real.arccos (c / √(a * a + b * b)) + exact.atan2 b a) ∨
          x = wrap exact (offset - Real.arccos (c / √(a * a + b * b)) + exact.atan2 b a)) := by
  have hroot : 0 < √(a * a + b * b) := Real.sqrt_pos.mpr (by nlinarith)
  have hnorm : ‖(⟨a, b⟩ : ℂ)‖ = √(a * a + b * b) := by
    rw [Complex.norm_eq_sqrt_sq_add_sq, pow_two, pow_two]
  have hcos : √(a * a + b * b) * Real.cos (exact.atan2 b a) = a := by
    rw [← hnorm]
    exact Complex.norm_mul_cos_arg ⟨a, b⟩
  have hsin : √(a * a + b * b) * Real.sin (exact.atan2 b a) = b := by
    rw [← hnorm]
    exact Complex.norm_mul_sin_arg ⟨a, b⟩
  generalize exact.atan2 b a = phase at hcos hsin ⊢
  generalize √(a * a + b * b) = r at hroot hcos hsin ⊢
  have hsum : a * Real.cos (x - offset) + b * Real.sin (x - offset)
      = r * Real.cos (x - offset - phase) := by
    rw [Real.cos_sub (x - offset) phase, ← hcos, ← hsin]
    ring
  rw [hsum]
  constructor
  · intro h
    have hc : Real.cos (x - offset - phase) = c / r := by
      rw [← h]
      field_simp
    have hbound : |c| ≤ r := by
      rw [← h, abs_mul, abs_of_pos hroot]
      exact mul_le_of_le_one_right (le_of_lt hroot) (Real.abs_cos_le_one _)
    refine ⟨hbound, ?_⟩
    have habs := abs_le.mp hbound
    rw [← Real.cos_arccos (x := c / r) (by rw [le_div_iff₀ hroot]; linarith)
      (by rw [div_le_iff₀ hroot]; linarith), Real.cos_eq_cos_iff] at hc
    obtain ⟨k, hk | hk⟩ := hc
    · left
      apply eq_wrap (k := -k) hlo hhi
      push_cast
      linarith
    · right
      apply eq_wrap (k := k) hlo hhi
      linarith
  · intro h
    obtain ⟨hbound, h⟩ := h
    have habs := abs_le.mp hbound
    have hc : Real.cos (Real.arccos (c / r)) = c / r :=
      Real.cos_arccos (by rw [le_div_iff₀ hroot]; linarith) (by rw [div_le_iff₀ hroot]; linarith)
    have hvalue : Real.cos (x - offset - phase) = c / r := by
      rw [← hc]
      rcases h with h | h
      · obtain ⟨k, hk⟩ := wrap_eq (offset + Real.arccos (c / r) + phase)
        rw [Real.cos_eq_cos_iff]
        refine ⟨k, Or.inl ?_⟩
        rw [h, hk]
        ring
      · obtain ⟨k, hk⟩ := wrap_eq (offset - Real.arccos (c / r) + phase)
        rw [Real.cos_eq_cos_iff]
        refine ⟨-k, Or.inr ?_⟩
        rw [h, hk]
        push_cast
        ring
    rw [hvalue]
    field_simp

/-! ## The great circle of an arc -/

section arc

variable {latA lonA latB lonB lat lon : ℝ}

/-- `A`, `B` and `C` of `crossesLatitude`. -/
noncomputable def coefficientA (latA lonA latB lonB lat : ℝ) : ℝ :=
  Real.sin latA * Real.cos latB * Real.cos lat * Real.sin (lonA - lonB)

@[inherit_doc coefficientA]
noncomputable def coefficientB (latA lonA latB lonB lat : ℝ) : ℝ :=
  Real.sin latA * Real.cos latB * Real.cos lat * Real.cos (lonA - lonB) -
    Real.cos latA * Real.sin latB * Real.cos lat

@[inherit_doc coefficientA]
noncomputable def coefficientC (latA lonA latB lonB lat : ℝ) : ℝ :=
  Real.cos latA * Real.cos latB * Real.sin lat * Real.sin (lonA - lonB)

/-- The equation of the great circle through two points, for a given latitude. -/
theorem circle_eq (latA lonA latB lonB lat lon : ℝ) :
    toVector lat lon ⬝ᵥ (toVector latA lonA ⨯₃ toVector latB lonB)
      = coefficientA latA lonA latB lonB lat * Real.cos (lon - lonA) +
        coefficientB latA lonA latB lonB lat * Real.sin (lon - lonA) -
        coefficientC latA lonA latB lonB lat := by
  have hsum : Real.sin (lonA - lonB) * Real.cos (lon - lonA) +
      Real.cos (lonA - lonB) * Real.sin (lon - lonA) = Real.sin (lon - lonB) := by
    rw [← Real.sin_add]
    congr 1
    ring
  have hright : ∀ p q r : ℝ,
      p * Real.sin (lonA - lonB) * Real.cos (lon - lonA) +
        (p * Real.cos (lonA - lonB) - q) * Real.sin (lon - lonA) - r * Real.sin (lonA - lonB)
      = p * Real.sin (lon - lonB) - q * Real.sin (lon - lonA) - r * Real.sin (lonA - lonB) := by
    intro p q r
    rw [← hsum]
    ring
  rw [coefficientA, coefficientB, coefficientC, hright, cross_apply, dot_eq, Real.sin_sub,
    Real.sin_sub, Real.sin_sub]
  simp only [toVector, cons_val_zero, cons_val_one, cons_val]
  ring

/-- A longitude between two others, by the signs of two sines. -/
theorem between_iff_sin (hA : -Real.pi ≤ lonA) (hB : lonB ≤ Real.pi) (hAB : lonA < lonB)
    (hwidth : lonB - lonA < Real.pi) (hlo : -Real.pi ≤ lon) (hhi : lon < Real.pi) :
    (0 < Real.sin (lonB - lon) ∧ 0 < Real.sin (lon - lonA)) ↔ lonA < lon ∧ lon < lonB := by
  -- the sine is not positive between `π` and `2 * π`
  have hneg : ∀ x, Real.pi ≤ x → x ≤ 2 * Real.pi → Real.sin x ≤ 0 := by
    intro x h1 h2
    have h := Real.sin_nonneg_of_nonneg_of_le_pi (x := x - Real.pi) (by linarith) (by linarith)
    rw [Real.sin_sub_pi] at h
    linarith
  constructor
  · intro h
    obtain ⟨h1, h2⟩ := h
    constructor
    · by_contra hle
      have hle := not_lt.mp hle
      have hfar : Real.pi ≤ lonA - lon := by
        by_contra hnear
        have h := Real.sin_nonneg_of_nonneg_of_le_pi (x := lonA - lon) (by linarith)
          (le_of_lt (not_le.mp hnear))
        rw [← neg_sub, Real.sin_neg] at h
        linarith
      linarith [hneg (lonB - lon) (by linarith) (by linarith)]
    · by_contra hle
      have hle := not_lt.mp hle
      have hfar : Real.pi ≤ lon - lonB := by
        by_contra hnear
        have h := Real.sin_nonneg_of_nonneg_of_le_pi (x := lon - lonB) (by linarith)
          (le_of_lt (not_le.mp hnear))
        rw [← neg_sub, Real.sin_neg] at h
        linarith
      linarith [hneg (lon - lonA) (by linarith) (by linarith)]
  · intro h
    exact ⟨Real.sin_pos_of_pos_of_lt_pi (by linarith) (by linarith),
      Real.sin_pos_of_pos_of_lt_pi (by linarith) (by linarith)⟩

/-- The coefficients of a point of the great circle. -/
theorem coefficients {a b : ℝ}
    (h : toVector lat lon = a • toVector latA lonA + b • toVector latB lonB) :
    Real.cos lat * Real.sin (lonB - lon) = a * (Real.cos latA * Real.sin (lonB - lonA)) ∧
      Real.cos lat * Real.sin (lon - lonA) = b * (Real.cos latB * Real.sin (lonB - lonA)) := by
  have hx := congrFun h 0
  have hy := congrFun h 1
  simp only [toVector, Pi.add_apply, Pi.smul_apply, smul_eq_mul, cons_val_zero, cons_val_one]
    at hx hy
  rw [Real.sin_sub, Real.sin_sub, Real.sin_sub]
  constructor
  · linear_combination Real.sin lonB * hx - Real.cos lonB * hy
  · linear_combination Real.cos lonA * hy - Real.sin lonA * hx

theorem arc_comm (A B : Fin 3 → ℝ) : Arc A B = Arc B A := by
  have hsub : ∀ A B : Fin 3 → ℝ, Arc A B ⊆ Arc B A := by
    intro A B P h
    obtain ⟨hP, a, b, ⟨ha, hb⟩, hab⟩ := h
    exact ⟨hP, b, a, ⟨hb, ha⟩, by rw [hab, add_comm]⟩
  exact Set.Subset.antisymm (hsub A B) (hsub B A)

/-- A multiple of a point of the sphere that is not negative and on the sphere is the
point itself. -/
theorem eq_of_smul {P Q : Fin 3 → ℝ} {r : ℝ} (hP : OnSphere P) (hQ : OnSphere Q) (hr : 0 ≤ r)
    (h : P = r • Q) : P = Q := by
  rw [OnSphere, h, smul_dotProduct, dotProduct_smul, show Q ⬝ᵥ Q = 1 from hQ] at hP
  simp only [smul_eq_mul, mul_one] at hP
  have hone : r = 1 := by nlinarith
  rw [h, hone, one_smul]

theorem mem_arc_iff_of_lt (hcosA : 0 < Real.cos latA) (hcosB : 0 < Real.cos latB)
    (hcos : 0 < Real.cos lat) (hA : -Real.pi ≤ lonA) (hB : lonB ≤ Real.pi) (hAB : lonA < lonB)
    (hwidth : lonB - lonA < Real.pi) (hlo : -Real.pi ≤ lon) (hhi : lon < Real.pi)
    (hneA : Real.sin lat ≠ Real.sin latA) (hneB : Real.sin lat ≠ Real.sin latB)
    (hcircle : toVector lat lon ⬝ᵥ (toVector latA lonA ⨯₃ toVector latB lonB) = 0) :
    toVector lat lon ∈ Arc (toVector latA lonA) (toVector latB lonB) ↔
      lonA < lon ∧ lon < lonB := by
  have hsin : 0 < Real.sin (lonB - lonA) :=
    Real.sin_pos_of_pos_of_lt_pi (by linarith) hwidth
  have hP := toVector_onSphere lat lon
  rw [← between_iff_sin hA hB hAB hwidth hlo hhi]
  constructor
  · intro h
    obtain ⟨_, a, b, ⟨ha, hb⟩, hab⟩ := h
    have ha0 : a ≠ 0 := by
      intro h0
      rw [h0, zero_smul, zero_add] at hab
      have hz := congrFun (eq_of_smul hP (toVector_onSphere latB lonB) hb hab) 2
      exact hneB hz
    have hb0 : b ≠ 0 := by
      intro h0
      rw [h0, zero_smul, add_zero] at hab
      have hz := congrFun (eq_of_smul hP (toVector_onSphere latA lonA) ha hab) 2
      exact hneA hz
    obtain ⟨h1, h2⟩ := coefficients hab
    constructor
    · apply (mul_pos_iff_of_pos_left hcos).mp
      rw [h1]
      exact mul_pos (lt_of_le_of_ne ha (Ne.symm ha0)) (mul_pos hcosA hsin)
    · apply (mul_pos_iff_of_pos_left hcos).mp
      rw [h2]
      exact mul_pos (lt_of_le_of_ne hb (Ne.symm hb0)) (mul_pos hcosB hsin)
  · intro h
    have hne : toVector latA lonA ⨯₃ toVector latB lonB ≠ 0 := by
      intro h0
      have hz := congrFun h0 2
      rw [cross_apply] at hz
      simp only [toVector, cons_val_zero, cons_val_one, cons_val, Pi.zero_apply] at hz
      have hvalue : Real.cos latA * Real.cos latB * Real.sin (lonB - lonA) = 0 := by
        rw [Real.sin_sub]
        linear_combination hz
      exact absurd hvalue (ne_of_gt (mul_pos (mul_pos hcosA hcosB) hsin))
    obtain ⟨a, b, hab⟩ := exists_coefficients (toVector_onSphere latA lonA)
      (toVector_onSphere latB lonB) hcircle hne
    obtain ⟨h1, h2⟩ := coefficients hab
    refine ⟨hP, a, b, ⟨?_, ?_⟩, hab⟩
    · have hpos := mul_pos hcos h.1
      rw [h1] at hpos
      exact le_of_lt ((mul_pos_iff_of_pos_right (mul_pos hcosA hsin)).mp hpos)
    · have hpos := mul_pos hcos h.2
      rw [h2] at hpos
      exact le_of_lt ((mul_pos_iff_of_pos_right (mul_pos hcosB hsin)).mp hpos)

/-- A point of the great circle is on the arc when its longitude is between those of the
ends, in whatever order these are. -/
theorem mem_arc_iff_between (hcosA : 0 < Real.cos latA) (hcosB : 0 < Real.cos latB)
    (hcos : 0 < Real.cos lat) (hA : -Real.pi ≤ lonA ∧ lonA ≤ Real.pi)
    (hB : -Real.pi ≤ lonB ∧ lonB ≤ Real.pi) (hne : lonA ≠ lonB) (hwidth : |lonA - lonB| < Real.pi)
    (hlo : -Real.pi ≤ lon) (hhi : lon < Real.pi) (hneA : Real.sin lat ≠ Real.sin latA)
    (hneB : Real.sin lat ≠ Real.sin latB)
    (hcircle : toVector lat lon ⬝ᵥ (toVector latA lonA ⨯₃ toVector latB lonB) = 0) :
    toVector lat lon ∈ Arc (toVector latA lonA) (toVector latB lonB) ↔
      min lonA lonB < lon ∧ lon < max lonA lonB := by
  have hwidth := abs_lt.mp hwidth
  rcases lt_or_gt_of_ne hne with hlt | hgt
  · rw [min_eq_left (le_of_lt hlt), max_eq_right (le_of_lt hlt)]
    exact mem_arc_iff_of_lt hcosA hcosB hcos hA.1 hB.2 hlt (by linarith) hlo hhi hneA hneB hcircle
  · rw [min_eq_right (le_of_lt hgt), max_eq_left (le_of_lt hgt), arc_comm]
    apply mem_arc_iff_of_lt hcosB hcosA hcos hB.1 hA.2 hgt (by linarith) hlo hhi hneB hneA
    rw [← cross_anticomm, dotProduct_neg, hcircle, neg_zero]

/-! ## The parallel between two longitudes -/

/-- The case for the 180th meridian is one for degrees; in radians there is no such value. -/
theorem coordinateBetween_iff {c lo hi : ℝ} (hhi : hi ≤ 175) (hapart : 1 / 10000000 < |lo - hi|) :
    coordinateBetweenValues c lo hi = true ↔ lo < c ∧ c < hi := by
  have hfuzzy : (fuzzyEquals c lo (1 / 10000000) && fuzzyEquals lo hi (1 / 10000000)) = false := by
    rw [Bool.and_eq_false_iff]
    right
    exact decide_eq_false (not_le.mpr hapart)
  rw [coordinateBetweenValues, hfuzzy, if_neg (by simp),
    if_neg (fun h => absurd h.1 (not_lt.mpr hhi)),
    decide_eq_true_eq, and_comm]

theorem coordinateBetween_of_lt {c lo hi : ℝ} (hhi : hi ≤ 175) (h1 : lo < c) (h2 : c < hi) :
    coordinateBetweenValues c lo hi = true := by
  rw [coordinateBetweenValues]
  split_ifs with hfuzzy hwrap
  · rfl
  · exact absurd hwrap.1 (not_lt.mpr hhi)
  · exact decide_eq_true ⟨h2, h1⟩

theorem abs_min_sub_max (a b : ℝ) : |min a b - max a b| = |a - b| := by
  rw [abs_sub_comm, max_sub_min_eq_abs', abs_abs, abs_sub_comm]

/-- A latitude strictly between two others. -/
theorem ne_of_between (hmin : min latA latB < lat) (hmax : lat < max latA latB) :
    latA ≠ latB ∧ lat ≠ latA ∧ lat ≠ latB := by
  rcases le_total latA latB with h | h
  · rw [min_eq_left h] at hmin
    rw [max_eq_right h] at hmax
    exact ⟨by linarith, by linarith, by linarith⟩
  · rw [min_eq_right h] at hmin
    rw [max_eq_left h] at hmax
    exact ⟨by linarith, by linarith, by linarith⟩

/-- A latitude in radians, without the poles. -/
structure IsLat (lat : ℝ) : Prop where
  south : -(Real.pi / 2) < lat
  north : lat < Real.pi / 2

theorem IsLat.cos_pos (h : IsLat lat) : 0 < Real.cos lat :=
  Real.cos_pos_of_mem_Ioo ⟨h.south, h.north⟩

theorem IsLat.sin_ne {lat' : ℝ} (h : IsLat lat) (h' : IsLat lat') (hne : lat ≠ lat') :
    Real.sin lat ≠ Real.sin lat' := by
  intro hsin
  exact hne (Real.strictMonoOn_sin.injOn ⟨le_of_lt h.1, le_of_lt h.2⟩
    ⟨le_of_lt h'.1, le_of_lt h'.2⟩ hsin)

/-- The equation for the longitude is not trivial. -/
theorem coefficients_pos (hlatA : IsLat latA) (hlatB : IsLat latB) (hlat : IsLat lat)
    (hneLat : latA ≠ latB) (hne : lonA ≠ lonB) (hwidth : |lonA - lonB| < Real.pi) :
    0 < coefficientA latA lonA latB lonB lat ^ 2 + coefficientB latA lonA latB lonB lat ^ 2 := by
  have hcosA := hlatA.cos_pos
  have hcosB := hlatB.cos_pos
  have hcos := hlat.cos_pos
  by_cases hzero : Real.sin latA = 0
  · have hB0 : Real.sin latB ≠ 0 := by
      rw [← hzero]
      exact (hlatA.sin_ne hlatB hneLat).symm
    have hB : coefficientB latA lonA latB lonB lat ≠ 0 := by
      rw [coefficientB, hzero, zero_mul, zero_mul, zero_mul, zero_sub]
      exact neg_ne_zero.mpr (mul_ne_zero (mul_ne_zero (ne_of_gt hcosA) hB0) (ne_of_gt hcos))
    exact add_pos_of_nonneg_of_pos (sq_nonneg _) (by positivity)
  · have hsin : Real.sin (lonA - lonB) ≠ 0 := by
      have hwidth := abs_lt.mp hwidth
      intro h
      exact hne (sub_eq_zero.mp ((Real.sin_eq_zero_iff_of_lt_of_lt hwidth.1 hwidth.2).mp h))
    have hA : coefficientA latA lonA latB lonB lat ≠ 0 :=
      mul_ne_zero (mul_ne_zero (mul_ne_zero hzero (ne_of_gt hcosB)) (ne_of_gt hcos)) hsin
    exact add_pos_of_pos_of_nonneg (by positivity) (sq_nonneg _)

/-- The two longitudes that `crossesLatitude` calculates. -/
noncomputable def crossLonA (latA lonA latB lonB lat : ℝ) : ℝ :=
  wrap exact (lonA + Real.arccos (coefficientC latA lonA latB lonB lat /
      √(coefficientA latA lonA latB lonB lat * coefficientA latA lonA latB lonB lat +
        coefficientB latA lonA latB lonB lat * coefficientB latA lonA latB lonB lat)) +
    exact.atan2 (coefficientB latA lonA latB lonB lat) (coefficientA latA lonA latB lonB lat))

@[inherit_doc crossLonA]
noncomputable def crossLonB (latA lonA latB lonB lat : ℝ) : ℝ :=
  wrap exact (lonA - Real.arccos (coefficientC latA lonA latB lonB lat /
      √(coefficientA latA lonA latB lonB lat * coefficientA latA lonA latB lonB lat +
        coefficientB latA lonA latB lonB lat * coefficientB latA lonA latB lonB lat)) +
    exact.atan2 (coefficientB latA lonA latB lonB lat) (coefficientA latA lonA latB lonB lat))

/-- There are such longitudes. -/
def Crosses (latA lonA latB lonB lat : ℝ) : Prop :=
  |coefficientC latA lonA latB lonB lat| ≤
    √(coefficientA latA lonA latB lonB lat * coefficientA latA lonA latB lonB lat +
      coefficientB latA lonA latB lonB lat * coefficientB latA lonA latB lonB lat)

/-- They are those of all points of the great circle that have the latitude. -/
theorem exists_crossLon_iff (hlatA : IsLat latA) (hlatB : IsLat latB) (hlat : IsLat lat)
    (hneLat : latA ≠ latB) (hne : lonA ≠ lonB) (hwidth : |lonA - lonB| < Real.pi)
    (hlo : -Real.pi ≤ lon) (hhi : lon < Real.pi) :
    toVector lat lon ⬝ᵥ (toVector latA lonA ⨯₃ toVector latB lonB) = 0 ↔
      Crosses latA lonA latB lonB lat ∧
        (lon = crossLonA latA lonA latB lonB lat ∨ lon = crossLonB latA lonA latB lonB lat) := by
  rw [circle_eq, sub_eq_zero]
  exact solve_iff (coefficients_pos hlatA hlatB hlat hneLat hne hwidth) hlo hhi

/-- `crossesLatitude` in radians, for a latitude between those of the ends. -/
theorem crossesLatitudeRadian_eq {lonStart lonDest : ℝ} (hlat : max latA latB ≤ 175)
    (hmin : min latA latB < lat) (hmax : lat < max latA latB) :
    crossesLatitudeRadian exact latA lonA latB lonB lat lonStart lonDest = true ↔
      Crosses latA lonA latB lonB lat ∧ ∃ lon, (lon = crossLonA latA lonA latB lonB lat ∨
          lon = crossLonB latA lonA latB lonB lat) ∧
        coordinateBetweenValues lon (min lonA lonB) (max lonA lonB) = true ∧
        coordinateBetweenValues lon (min lonStart lonDest) (max lonStart lonDest) = true := by
  have hguard := coordinateBetween_of_lt hlat hmin hmax
  have hrun : crossesLatitudeRadian exact latA lonA latB lonB lat lonStart lonDest =
      if √(coefficientA latA lonA latB lonB lat * coefficientA latA lonA latB lonB lat +
          coefficientB latA lonA latB lonB lat * coefficientB latA lonA latB lonB lat)
          < |coefficientC latA lonA latB lonB lat| then false
      else
        (coordinateBetweenValues (crossLonA latA lonA latB lonB lat) (min lonA lonB)
            (max lonA lonB) &&
          coordinateBetweenValues (crossLonA latA lonA latB lonB lat) (min lonStart lonDest)
            (max lonStart lonDest)) ||
        (coordinateBetweenValues (crossLonB latA lonA latB lonB lat) (min lonA lonB)
            (max lonA lonB) &&
          coordinateBetweenValues (crossLonB latA lonA latB lonB lat) (min lonStart lonDest)
            (max lonStart lonDest)) := by
    rw [crossesLatitudeRadian, hguard]
    rfl
  rw [hrun, Crosses]
  split_ifs with hfar
  · rw [false_iff]
    intro h
    exact absurd h.1 (not_le.mpr hfar)
  · simp only [not_lt.mp hfar, true_and, Bool.or_eq_true, Bool.and_eq_true, or_and_right,
      exists_or, exists_eq_left]

/-- `crossesLatitude` in radians finds the points of the arc on the parallel. -/
theorem crossesLatitudeRadian_iff {lonStart lonDest : ℝ} (hlatA : IsLat latA)
    (hlatB : IsLat latB) (hmin : min latA latB < lat) (hmax : lat < max latA latB)
    (hlonA : -Real.pi ≤ lonA ∧ lonA ≤ Real.pi) (hlonB : -Real.pi ≤ lonB ∧ lonB ≤ Real.pi)
    (hapart : 1 / 10000000 < |lonA - lonB|) (hwidth : |lonA - lonB| < Real.pi)
    (hstart : lonStart ≤ Real.pi) (hdest : lonDest ≤ Real.pi)
    (hspan : 1 / 10000000 < |lonStart - lonDest|) :
    crossesLatitudeRadian exact latA lonA latB lonB lat lonStart lonDest = true ↔
      ∃ lon, (-Real.pi ≤ lon ∧ lon < Real.pi) ∧
        (min lonStart lonDest < lon ∧ lon < max lonStart lonDest) ∧
        toVector lat lon ∈ Arc (toVector latA lonA) (toVector latB lonB) := by
  have hpi := Real.pi_le_four
  have hne : lonA ≠ lonB := by
    intro h
    rw [h, sub_self, abs_zero] at hapart
    norm_num at hapart
  obtain ⟨hneLat, hneA, hneB⟩ := ne_of_between hmin hmax
  have hlat : IsLat lat :=
    ⟨lt_trans (lt_min hlatA.1 hlatB.1) hmin, lt_trans hmax (max_lt hlatA.2 hlatB.2)⟩
  have hbetween : ∀ {a b : ℝ} (c : ℝ), a ≤ Real.pi → b ≤ Real.pi → 1 / 10000000 < |a - b| →
      (coordinateBetweenValues c (min a b) (max a b) = true ↔ min a b < c ∧ c < max a b) := by
    intro a b c ha hb hab
    exact coordinateBetween_iff (max_le (by linarith) (by linarith))
      (by rw [abs_min_sub_max]; exact hab)
  have harc : ∀ lon, -Real.pi ≤ lon → lon < Real.pi →
      (toVector lat lon ∈ Arc (toVector latA lonA) (toVector latB lonB) ↔
        (Crosses latA lonA latB lonB lat ∧ (lon = crossLonA latA lonA latB lonB lat ∨
          lon = crossLonB latA lonA latB lonB lat)) ∧
        min lonA lonB < lon ∧ lon < max lonA lonB) := by
    intro lon hlo hhi
    rw [← exists_crossLon_iff hlatA hlatB hlat hneLat hne hwidth hlo hhi]
    have hiff := mem_arc_iff_between (hlatA.cos_pos)
      (hlatB.cos_pos) (hlat.cos_pos) hlonA hlonB hne hwidth hlo hhi
      (hlat.sin_ne hlatA hneA) (hlat.sin_ne hlatB hneB)
    constructor
    · intro h
      have hplane := coplanar_of_mem_arc h
      exact ⟨hplane, (hiff hplane).mp h⟩
    · intro h
      exact (hiff h.1).mpr h.2
  have hsmall : max latA latB ≤ 175 := by
    have h1 := hlatA.2
    have h2 := hlatB.2
    exact max_le (by linarith) (by linarith)
  rw [crossesLatitudeRadian_eq hsmall hmin hmax]
  constructor
  · intro h
    obtain ⟨hcrosses, lon, hlon, h1, h2⟩ := h
    have hrange : -Real.pi ≤ lon ∧ lon < Real.pi := by
      rcases hlon with rfl | rfl
      · exact wrap_bounds _
      · exact wrap_bounds _
    refine ⟨lon, hrange, (hbetween lon hstart hdest hspan).mp h2, ?_⟩
    rw [harc lon hrange.1 hrange.2]
    exact ⟨⟨hcrosses, hlon⟩, (hbetween lon hlonA.2 hlonB.2 hapart).mp h1⟩
  · intro h
    obtain ⟨lon, hrange, hspan', hmem⟩ := h
    obtain ⟨⟨hcrosses, hlon⟩, h1⟩ := (harc lon hrange.1 hrange.2).mp hmem
    exact ⟨hcrosses, lon, hlon, (hbetween lon hlonA.2 hlonB.2 hapart).mpr h1,
      (hbetween lon hstart hdest hspan).mpr hspan'⟩

/-! ## Degrees -/

/-- An angle in radians. -/
noncomputable def rad (x : ℝ) : ℝ := degreeCoordinateToRadian exact x

theorem rad_eq (x : ℝ) : rad x = x * (Real.pi / 180) := by
  show x * Real.pi / 180 = _
  ring

theorem rad_strictMono : StrictMono rad := by
  intro x y h
  rw [rad_eq, rad_eq]
  exact mul_lt_mul_of_pos_right h (by linarith [Real.pi_pos])

theorem rad_surjective (y : ℝ) : ∃ x, rad x = y := by
  refine ⟨y * 180 / Real.pi, ?_⟩
  rw [rad_eq]
  have := Real.pi_pos
  field_simp

theorem abs_rad_sub (x y : ℝ) : |rad x - rad y| = |x - y| * (Real.pi / 180) := by
  rw [rad_eq, rad_eq, ← sub_mul, abs_mul,
    abs_of_pos (show 0 < Real.pi / 180 by linarith [Real.pi_pos])]

theorem rad_bounds {x : ℝ} (h : |x| ≤ 180) : -Real.pi ≤ rad x ∧ rad x ≤ Real.pi := by
  have habs := abs_le.mp h
  have hpi := Real.pi_pos
  rw [rad_eq]
  constructor
  · nlinarith
  · nlinarith

theorem rad_isLat {x : ℝ} (h : |x| < 90) : IsLat (rad x) := by
  have habs := abs_lt.mp h
  have hpi := Real.pi_pos
  constructor
  · rw [rad_eq]
    nlinarith
  · rw [rad_eq]
    nlinarith

theorem rad_apart {x y : ℝ} (h : 1 / 100000 ≤ |x - y|) : 1 / 10000000 < |rad x - rad y| := by
  rw [abs_rad_sub]
  nlinarith [Real.two_le_pi]

/-- `crossesLatitude` finds out whether an arc crosses the parallel `lat` between two
longitudes, if it is neither on a meridian nor crosses the 180th one.  Parallels near one
of its ends it always crosses, and those that it only reaches beyond both ends it never
does. -/
theorem crossesLatitude_iff {lonStart lonDest : ℝ} (hlatA : |latA| < 90) (hlatB : |latB| < 90)
    (hlonA : |lonA| ≤ 180) (hlonB : |lonB| ≤ 180) (hapart : 1 / 100000 ≤ |lonA - lonB|)
    (hwidth : |lonA - lonB| < 180) (hstart : |lonStart| ≤ 180) (hdest : |lonDest| ≤ 180)
    (hspan : 1 / 100000 ≤ |lonStart - lonDest|) :
    crossesLatitude exact latA lonA latB lonB lat lonStart lonDest = true ↔
      (|latA - lat| ≤ 1 / 10000000 ∨ |latB - lat| ≤ 1 / 10000000) ∨
        (min latA latB < lat ∧ lat < max latA latB) ∧
          ∃ lon, (min lonStart lonDest < lon ∧ lon < max lonStart lonDest) ∧
            latLonToVector exact lat lon ∈ Arc (latLonToVector exact latA lonA)
              (latLonToVector exact latB lonB) := by
  have hnear : (fuzzyEquals latA lat (1 / 10000000) || fuzzyEquals latB lat (1 / 10000000)) = true ↔
      |latA - lat| ≤ 1 / 10000000 ∨ |latB - lat| ≤ 1 / 10000000 := by
    rw [Bool.or_eq_true, fuzzyEquals, fuzzyEquals, decide_eq_true_eq, decide_eq_true_eq]
  rw [crossesLatitude, ← hnear]
  split_ifs with h houtside
  · exact ⟨fun _ => Or.inl h, fun _ => rfl⟩
  · -- above or below both ends
    simp only [h, Bool.false_eq_true, false_or, false_iff]
    intro hin
    rcases houtside with hout | hout
    · exact absurd hin.1.2 (not_lt.mpr (le_of_lt hout))
    · exact absurd hin.1.1 (not_lt.mpr (le_of_lt hout))
  · rw [hnear] at h
    have hne : lat ≠ latA ∧ lat ≠ latB := by
      constructor
      · intro heq
        apply h
        left
        rw [heq, sub_self, abs_zero]
        norm_num
      · intro heq
        apply h
        right
        rw [heq, sub_self, abs_zero]
        norm_num
    have hin : min latA latB < lat ∧ lat < max latA latB := by
      have houtside := not_or.mp houtside
      constructor
      · apply lt_of_le_of_ne (not_lt.mp houtside.2)
        intro heq
        rcases min_choice latA latB with hmin | hmin
        · exact hne.1 (heq.symm.trans hmin)
        · exact hne.2 (heq.symm.trans hmin)
      · apply lt_of_le_of_ne (not_lt.mp houtside.1)
        intro heq
        rcases max_choice latA latB with hmax | hmax
        · exact hne.1 (heq.trans hmax)
        · exact hne.2 (heq.trans hmax)
    have hmono := rad_strictMono
    have hmin : min (rad latA) (rad latB) < rad lat := by
      rw [← hmono.monotone.map_min]
      exact hmono hin.1
    have hmax : rad lat < max (rad latA) (rad latB) := by
      rw [← hmono.monotone.map_max]
      exact hmono hin.2
    have hrun := crossesLatitudeRadian_iff (rad_isLat hlatA) (rad_isLat hlatB) hmin hmax
      (rad_bounds hlonA) (rad_bounds hlonB) (rad_apart hapart)
      (by rw [abs_rad_sub]; nlinarith [Real.pi_pos]) (rad_bounds hstart).2 (rad_bounds hdest).2
      (rad_apart hspan)
    rw [← hmono.monotone.map_min, ← hmono.monotone.map_max] at hrun
    rw [← hnear] at h
    simp only [h, Bool.false_eq_true, false_or, hin, and_self, true_and]
    refine hrun.trans ?_
    simp only [latLonToVector_eq_toVector]
    constructor
    · intro hex
      obtain ⟨y, _, hy, hmem⟩ := hex
      obtain ⟨lon, rfl⟩ := rad_surjective y
      exact ⟨lon, ⟨hmono.lt_iff_lt.mp hy.1, hmono.lt_iff_lt.mp hy.2⟩, hmem⟩
    · intro hex
      obtain ⟨lon, hlon, hmem⟩ := hex
      have hlo : -Real.pi ≤ rad lon := by
        have h1 := hmono hlon.1
        rw [hmono.monotone.map_min] at h1
        exact le_of_lt (lt_of_le_of_lt (le_min (rad_bounds hstart).1 (rad_bounds hdest).1) h1)
      have hhi : rad lon < Real.pi := by
        have h1 := hmono hlon.2
        rw [hmono.monotone.map_max] at h1
        exact lt_of_lt_of_le h1 (max_le (rad_bounds hstart).2 (rad_bounds hdest).2)
      exact ⟨rad lon, ⟨hlo, hhi⟩, ⟨hmono hlon.1, hmono hlon.2⟩, hmem⟩

end arc

/-- An arc from the south-west to the north-east, and the equator. -/
theorem crossesLatitude_iff_equator :
    crossesLatitude exact (-45) (-45) 45 45 0 (-10) 10 = true := by
  have hroot : (√2 / 2) * (√2 / 2) = (1 : ℝ) / 2 := by
    have := Real.mul_self_sqrt (show (0 : ℝ) ≤ 2 by norm_num)
    linarith
  have hquarter : (45 : ℝ) / 180 * Real.pi = Real.pi / 4 := by ring
  have hquarter' : (-45 : ℝ) / 180 * Real.pi = -(Real.pi / 4) := by ring
  have hsouthWest : latLonToVector exact (-45) (-45) = ![1 / 2, -(1 / 2), -(√2 / 2)] := by
    rw [latLonToVector_eq, hquarter']
    simp only [Real.cos_neg, Real.sin_neg, Real.cos_pi_div_four, Real.sin_pi_div_four, mul_neg,
      hroot]
  have hnorthEast : latLonToVector exact 45 45 = ![1 / 2, 1 / 2, √2 / 2] := by
    rw [latLonToVector_eq, hquarter]
    simp only [Real.cos_pi_div_four, Real.sin_pi_div_four, hroot]
  have horigin : latLonToVector exact 0 0 = ![1, 0, 0] := by
    rw [latLonToVector_eq]
    simp
  apply (crossesLatitude_iff (by norm_num [abs_lt]) (by norm_num [abs_lt]) (by norm_num [abs_le])
    (by norm_num [abs_le]) (by norm_num) (by norm_num) (by norm_num [abs_le])
    (by norm_num [abs_le]) (by norm_num)).mpr
  right
  refine ⟨⟨by norm_num, by norm_num⟩, 0, ⟨by norm_num, by norm_num⟩, ?_⟩
  rw [hsouthWest, hnorthEast, horigin]
  refine ⟨by simp [OnSphere], 1, 1, ⟨by norm_num, by norm_num⟩, ?_⟩
  funext i
  fin_cases i
  · simp
    norm_num
  · simp
  · simp

end IntersectionHelper

end Utils

end SeaRouter
