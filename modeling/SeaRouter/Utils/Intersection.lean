import SeaRouter.Utils.Distance

/-!
# `utils/IntersectionHelper.java`: intersections

* `arcsIntersect_iff`: over exact numbers `arcsIntersect` finds out whether two arcs have
  a point in common, if they are shorter than a third of a great circle and do not lie on
  the same one.  Two arcs on one great circle are never said to meet, but for those on
  one meridian.
-/

open Matrix GreatCircle

namespace SeaRouter

namespace Utils

namespace IntersectionHelper

variable {A B C D t : Fin 3 → ℝ}

/-! ## The tests -/

/-- A point is not further from the end of an arc than the ends are from each other. -/
theorem distance_le_iff (ht : t ≠ 0) (hA : OnSphere A) (hB : OnSphere B) {E : Fin 3 → ℝ}
    (hE : OnSphere E) :
    distance exact t E ≤ distance exact A B ↔ A ⬝ᵥ B ≤ onto t ⬝ᵥ E := by
  have hscaled : distance exact t E = EARTH_RADIUS * Real.arccos (onto t ⬝ᵥ E) := by
    rw [distance_eq ht (onSphere_ne_zero hE), show E ⬝ᵥ E = 1 from hE, Real.sqrt_one, mul_one,
      onto, smul_dotProduct, smul_eq_mul, div_eq_inv_mul]
  have hradius : (0 : ℝ) < EARTH_RADIUS := by
    show (0 : ℝ) < 6371000
    norm_num
  have hmem : ∀ {u v : Fin 3 → ℝ}, OnSphere u → OnSphere v → u ⬝ᵥ v ∈ Set.Icc (-1 : ℝ) 1 := by
    intro u v hu hv
    have h := cosine_mem hu hv
    exact ⟨by nlinarith, by nlinarith⟩
  rw [hscaled, distance_of_onSphere hA hB, mul_le_mul_iff_right₀ hradius]
  exact Real.strictAntiOn_arccos.le_iff_ge (hmem (onto_onSphere ht) hE) (hmem hA hB)

theorem isIntersection_iff (ht : t ≠ 0) (hA : OnSphere A) (hB : OnSphere B) :
    isIntersectionInGreatCircleSegment exact A B t = true ↔
      A ⬝ᵥ B ≤ onto t ⬝ᵥ A ∧ A ⬝ᵥ B ≤ onto t ⬝ᵥ B := by
  rw [isIntersectionInGreatCircleSegment, decide_eq_true_eq, distance_le_iff ht hA hB hA,
    distance_le_iff ht hA hB hB]

/-- The three cases of `lineIntersection`. -/
theorem lineIntersection_cases (A B C D target : Fin 3 → ℝ) :
    (lineIntersection A B C D target = (false, target) ∧
      (A + (B + (C + D))) ⬝ᵥ ((A ⨯₃ B) ⨯₃ (C ⨯₃ D)) = 0) ∨
    ∃ t, lineIntersection A B C D target = (true, t) ∧ (A ⨯₃ B) ⨯₃ (C ⨯₃ D) ≠ 0 ∧
      t ⬝ᵥ (A ⨯₃ B) = 0 ∧ t ⬝ᵥ (C ⨯₃ D) = 0 ∧ 0 < (A + (B + (C + D))) ⬝ᵥ t := by
  have hdot : dotProductOfVector (addVectors A (addVectors B (addVectors C D)))
      (crossProductOfVector (crossProductOfVector A B) (crossProductOfVector C D))
      = (A + (B + (C + D))) ⬝ᵥ ((A ⨯₃ B) ⨯₃ (C ⨯₃ D)) := by
    rw [dotProductOfVector_eq, addVectors_eq, addVectors_eq, addVectors_eq,
      crossProductOfVector_eq, crossProductOfVector_eq, crossProductOfVector_eq]
  have hne : (A + (B + (C + D))) ⬝ᵥ ((A ⨯₃ B) ⨯₃ (C ⨯₃ D)) ≠ 0 → (A ⨯₃ B) ⨯₃ (C ⨯₃ D) ≠ 0 := by
    intro h h0
    rw [h0, dotProduct_zero] at h
    exact h rfl
  simp only [lineIntersection, hdot]
  rcases lt_trichotomy ((A + (B + (C + D))) ⬝ᵥ ((A ⨯₃ B) ⨯₃ (C ⨯₃ D))) 0 with hneg | hzero | hpos
  · right
    rw [if_neg (not_lt.mpr (le_of_lt hneg)), if_pos hneg]
    refine ⟨(C ⨯₃ D) ⨯₃ (A ⨯₃ B), rfl, hne (ne_of_lt hneg), ?_, ?_, ?_⟩
    · rw [dotProduct_comm, dot_cross_self]
    · rw [dotProduct_comm, dot_self_cross]
    · rw [← cross_anticomm, dotProduct_neg]
      linarith
  · left
    rw [if_neg (by rw [hzero]; exact lt_irrefl 0), if_neg (by rw [hzero]; exact lt_irrefl 0)]
    exact ⟨rfl, hzero⟩
  · right
    rw [if_pos hpos]
    refine ⟨(A ⨯₃ B) ⨯₃ (C ⨯₃ D), rfl, hne (ne_of_gt hpos), ?_, ?_, hpos⟩
    · rw [dotProduct_comm, dot_self_cross]
    · rw [dotProduct_comm, dot_cross_self]

theorem greatCircleSegmentIntersection_iff (hA : OnSphere A) (hB : OnSphere B) (hC : OnSphere C)
    (hD : OnSphere D) (hAB : -(1 / 2) < A ⬝ᵥ B) (hCD : -(1 / 2) < C ⬝ᵥ D) (target : Fin 3 → ℝ) :
    greatCircleSegmentIntersection exact A B C D target = true ↔
      (A ⨯₃ B) ⨯₃ (C ⨯₃ D) ≠ 0 ∧ ∃ P, P ∈ Arc A B ∧ P ∈ Arc C D := by
  rw [greatCircleSegmentIntersection]
  rcases lineIntersection_cases A B C D target with
    ⟨hrun, hside⟩ | ⟨t, hrun, hne, ht₁, ht₂, hside⟩
  · have hfalse : ∀ b : Bool, (if b = true then false else false) = false := by decide
    rw [hrun]
    simp only [hfalse, Bool.false_eq_true, false_iff]
    intro h
    exact not_meet hA hB hC hD (by linarith) (by linarith) h.1 hside h.2
  · have ht : t ≠ 0 := by
      intro h0
      rw [h0, dotProduct_zero] at hside
      exact lt_irrefl 0 hside
    rw [hrun]
    have hiff := meet_iff hA hB hC hD hAB hCD hne ht₁ ht₂ hside
    rw [← isIntersection_iff ht hA hB, ← isIntersection_iff ht hC hD] at hiff
    simp only [hne, ne_eq, not_false_eq_true, true_and, hiff]
    simp

/-! ## Arcs between coordinates -/

/-- Less than a third of a great circle, as a bound for the cosine. -/
theorem cosine_of_getDistance_lt {startLat startLong endLat endLong : ℝ}
    (h : getDistance exact startLat startLong endLat endLong < 6371000 * (2 * Real.pi / 3)) :
    -(1 / 2) < latLonToVector exact startLat startLong ⬝ᵥ latLonToVector exact endLat endLong := by
  have hcos := cosine_mem (latLonToVector_onSphere startLat startLong)
    (latLonToVector_onSphere endLat endLong)
  have hradius : (EARTH_RADIUS : ℝ) = 6371000 := rfl
  rw [getDistance_eq_arccos, hradius] at h
  have harccos := lt_of_mul_lt_mul_left h (by norm_num : (0 : ℝ) ≤ 6371000)
  have hthird : Real.arccos (-(1 / 2)) = 2 * Real.pi / 3 := by
    have hcos_third : Real.cos (2 * Real.pi / 3) = -(1 / 2) := by
      rw [show 2 * Real.pi / 3 = Real.pi - Real.pi / 3 by ring, Real.cos_pi_sub,
        Real.cos_pi_div_three]
    rw [← hcos_third, Real.arccos_cos]
    · linarith [Real.pi_pos]
    · linarith [Real.pi_pos]
  rw [← hthird] at harccos
  exact (Real.strictAntiOn_arccos.lt_iff_gt ⟨by nlinarith, by nlinarith⟩
    ⟨by norm_num, by norm_num⟩).mp harccos

/-- The four ends are on one meridian, up to the tolerance of the comparisons. -/
structure OnOneMeridian (lonSourceA lonDestA lonSourceB lonDestB : ℝ) : Prop where
  arcA : |lonSourceA - lonDestA| ≤ 1 / 10000000
  between : |lonDestA - lonSourceB| ≤ 1 / 10000000
  arcB : |lonSourceB - lonDestB| ≤ 1 / 10000000

/-- Two arcs of less than a third of a great circle are said to meet when they have a point
in common and do not lie on one great circle, or when they are on one meridian. -/
theorem arcsIntersect_iff (latSourceA lonSourceA latDestA lonDestA latSourceB lonSourceB : ℝ)
    (latDestB lonDestB : ℝ)
    (hA : getDistance exact latSourceA lonSourceA latDestA lonDestA
      < 6371000 * (2 * Real.pi / 3))
    (hB : getDistance exact latSourceB lonSourceB latDestB lonDestB
      < 6371000 * (2 * Real.pi / 3)) :
    arcsIntersect exact latSourceA lonSourceA latDestA lonDestA latSourceB lonSourceB latDestB
        lonDestB = true ↔
      OnOneMeridian lonSourceA lonDestA lonSourceB lonDestB ∨
        ((latLonToVector exact latSourceA lonSourceA ⨯₃ latLonToVector exact latDestA lonDestA) ⨯₃
            (latLonToVector exact latSourceB lonSourceB ⨯₃ latLonToVector exact latDestB lonDestB)
              ≠ 0 ∧
          ∃ P, P ∈ Arc (latLonToVector exact latSourceA lonSourceA)
                (latLonToVector exact latDestA lonDestA) ∧
            P ∈ Arc (latLonToVector exact latSourceB lonSourceB)
                (latLonToVector exact latDestB lonDestB)) := by
  have hmeridian : (fuzzyEquals lonSourceA lonDestA (1 / 10000000) &&
      fuzzyEquals lonDestA lonSourceB (1 / 10000000) &&
      fuzzyEquals lonSourceB lonDestB (1 / 10000000)) = true ↔
      OnOneMeridian lonSourceA lonDestA lonSourceB lonDestB := by
    simp only [fuzzyEquals, Bool.and_eq_true, decide_eq_true_eq]
    constructor
    · intro h
      exact ⟨h.1.1, h.1.2, h.2⟩
    · intro h
      exact ⟨⟨h.arcA, h.between⟩, h.arcB⟩
  rw [← greatCircleSegmentIntersection_iff (latLonToVector_onSphere _ _)
    (latLonToVector_onSphere _ _) (latLonToVector_onSphere _ _) (latLonToVector_onSphere _ _)
    (cosine_of_getDistance_lt hA) (cosine_of_getDistance_lt hB) ![0, 0, 0], ← hmeridian,
    arcsIntersect]
  split_ifs with h
  · exact ⟨fun _ => Or.inl h, fun _ => rfl⟩
  · constructor
    · intro hrun
      exact Or.inr hrun
    · intro hor
      cases hor with
      | inl hsame => exact absurd hsame h
      | inr hrun => exact hrun

/-- The equator and the prime meridian between -45 and 45 degrees. -/
theorem arcsIntersect_iff_origin : arcsIntersect exact 0 (-45) 0 45 (-45) 0 45 0 = true := by
  have hroot : (√2 / 2) * (√2 / 2) = (1 : ℝ) / 2 := by
    have := Real.mul_self_sqrt (show (0 : ℝ) ≤ 2 by norm_num)
    linarith
  have hquarter : (45 : ℝ) / 180 * Real.pi = Real.pi / 4 := by ring
  have hquarter' : (-45 : ℝ) / 180 * Real.pi = -(Real.pi / 4) := by ring
  have hwest : latLonToVector exact 0 (-45) = ![√2 / 2, -(√2 / 2), 0] := by
    rw [latLonToVector_eq, hquarter']
    simp
  have heast : latLonToVector exact 0 45 = ![√2 / 2, √2 / 2, 0] := by
    rw [latLonToVector_eq, hquarter]
    simp
  have hsouth : latLonToVector exact (-45) 0 = ![√2 / 2, 0, -(√2 / 2)] := by
    rw [latLonToVector_eq, hquarter']
    simp
  have hnorth : latLonToVector exact 45 0 = ![√2 / 2, 0, √2 / 2] := by
    rw [latLonToVector_eq, hquarter]
    simp
  have hradius : (EARTH_RADIUS : ℝ) = 6371000 := rfl
  apply (arcsIntersect_iff 0 (-45) 0 45 (-45) 0 45 0 ?_ ?_).mpr
  · right
    rw [hwest, heast, hsouth, hnorth]
    constructor
    · intro h
      have hx := congrFun h 0
      simp [cross_apply] at hx
      linarith
    · refine ⟨![1, 0, 0], ⟨by simp [OnSphere], √2 / 2, √2 / 2, ⟨by positivity, by positivity⟩,
        ?_⟩, by simp [OnSphere], √2 / 2, √2 / 2, ⟨by positivity, by positivity⟩, ?_⟩
      · funext i
        fin_cases i
        · simp
          linarith
        · simp
        · simp
      · funext i
        fin_cases i
        · simp
          linarith
        · simp
        · simp
  · rw [getDistance_eq_arccos, hwest, heast, hradius, dot_eq]
    simp only [cons_val_zero, cons_val_one, cons_val]
    rw [show √2 / 2 * (√2 / 2) + -(√2 / 2) * (√2 / 2) + 0 * 0 = (0 : ℝ) by ring, Real.arccos_zero]
    nlinarith [Real.pi_pos]
  · rw [getDistance_eq_arccos, hsouth, hnorth, hradius, dot_eq]
    simp only [cons_val_zero, cons_val_one, cons_val]
    rw [show √2 / 2 * (√2 / 2) + 0 * 0 + -(√2 / 2) * (√2 / 2) = (0 : ℝ) by ring, Real.arccos_zero]
    nlinarith [Real.pi_pos]

end IntersectionHelper

end Utils

end SeaRouter
