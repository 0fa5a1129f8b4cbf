import Mathlib.Analysis.SpecialFunctions.Trigonometric.Inverse
import Mathlib.LinearAlgebra.CrossProduct
import Mathlib.LinearAlgebra.Matrix.DotProduct
import Mathlib.Tactic

/-!
# Arcs of great circles

A point of the unit sphere is a vector of length one.  The shorter arc between two
points consists of the points that are combinations of the two with coefficients that
are not negative.

* `mem_arc_iff`: on the great circle through two points less than a third of it apart,
  the arc consists of the points that are from neither of the two further than they are
  from each other.  For points further apart this is wrong: some points on the other
  side are that close as well.
* `meet_iff`: two arcs on different great circles can only meet in one of the two points
  that the circles share, the one on the side of the four ends.
-/

open Matrix

namespace GreatCircle

variable {A B C D P : Fin 3 → ℝ}

/-- The point is on the unit sphere. -/
def OnSphere (P : Fin 3 → ℝ) : Prop := P ⬝ᵥ P = 1

/-- The shorter arc of the great circle through `A` and `B`. -/
def Arc (A B : Fin 3 → ℝ) : Set (Fin 3 → ℝ) :=
  {P | OnSphere P ∧ ∃ a b : ℝ, (0 ≤ a ∧ 0 ≤ b) ∧ P = a • A + b • B}

/-! ## Vectors -/

theorem dot_eq (u v : Fin 3 → ℝ) : u ⬝ᵥ v = u 0 * v 0 + u 1 * v 1 + u 2 * v 2 :=
  vec3_dotProduct u v

theorem dot_self_nonneg (u : Fin 3 → ℝ) : 0 ≤ u ⬝ᵥ u := by
  rw [dot_eq]
  exact add_nonneg (add_nonneg (mul_self_nonneg _) (mul_self_nonneg _)) (mul_self_nonneg _)

theorem dot_self_pos (h : P ≠ 0) : 0 < P ⬝ᵥ P := by
  apply lt_of_le_of_ne (dot_self_nonneg P)
  intro h0
  exact h (dotProduct_self_eq_zero.mp h0.symm)

/-- The length of the cross product. -/
theorem cross_dot_self (u v : Fin 3 → ℝ) :
    (u ⨯₃ v) ⬝ᵥ (u ⨯₃ v) = (u ⬝ᵥ u) * (v ⬝ᵥ v) - (u ⬝ᵥ v) ^ 2 := by
  rw [cross_dot_cross, dotProduct_comm v u]
  ring

/-- A vector in the coordinates of two others and their cross product. -/
theorem decompose (A B P : Fin 3 → ℝ) :
    ((A ⬝ᵥ A) * (B ⬝ᵥ B) - (A ⬝ᵥ B) ^ 2) • P
      = ((B ⬝ᵥ B) * (P ⬝ᵥ A) - (A ⬝ᵥ B) * (P ⬝ᵥ B)) • A
        + ((A ⬝ᵥ A) * (P ⬝ᵥ B) - (A ⬝ᵥ B) * (P ⬝ᵥ A)) • B + (P ⬝ᵥ (A ⨯₃ B)) • (A ⨯₃ B) := by
  funext i
  simp only [cross_apply, dot_eq, Pi.add_apply, Pi.smul_apply, smul_eq_mul]
  fin_cases i <;> simp <;> ring

/-- The two points that two planes through the center have in common. -/
theorem eq_smul_cross {n₁ n₂ : Fin 3 → ℝ} (h₁ : P ⬝ᵥ n₁ = 0) (h₂ : P ⬝ᵥ n₂ = 0)
    (hne : n₁ ⨯₃ n₂ ≠ 0) :
    P = ((P ⬝ᵥ (n₁ ⨯₃ n₂)) / ((n₁ ⨯₃ n₂) ⬝ᵥ (n₁ ⨯₃ n₂))) • (n₁ ⨯₃ n₂) := by
  have hpos := dot_self_pos hne
  have h := decompose n₁ n₂ P
  rw [h₁, h₂, ← cross_dot_self] at h
  simp only [mul_zero, sub_zero, zero_smul, zero_add] at h
  have h' : P = ((n₁ ⨯₃ n₂) ⬝ᵥ (n₁ ⨯₃ n₂))⁻¹ • ((P ⬝ᵥ (n₁ ⨯₃ n₂)) • (n₁ ⨯₃ n₂)) := by
    rw [← h, smul_smul, inv_mul_cancel₀ (ne_of_gt hpos), one_smul]
  rw [smul_smul] at h'
  rw [div_eq_inv_mul]
  exact h'

theorem cosine_mem (hA : OnSphere A) (hB : OnSphere B) : (A ⬝ᵥ B) ^ 2 ≤ 1 := by
  have h := dot_self_nonneg (A ⨯₃ B)
  rw [cross_dot_self, hA, hB] at h
  linarith

/-! ## Arcs -/

/-- The cosines of the angles between a combination of two points and these points. -/
theorem dots_of_combination (hA : OnSphere A) (hB : OnSphere B) {a b : ℝ}
    (h : P = a • A + b • B) : P ⬝ᵥ A = a + b * (A ⬝ᵥ B) ∧ P ⬝ᵥ B = a * (A ⬝ᵥ B) + b := by
  rw [h, add_dotProduct, add_dotProduct, smul_dotProduct, smul_dotProduct, smul_dotProduct,
    smul_dotProduct, show A ⬝ᵥ A = 1 from hA, show B ⬝ᵥ B = 1 from hB, dotProduct_comm B A]
  constructor
  · simp only [smul_eq_mul, mul_one]
  · simp only [smul_eq_mul, mul_one]

theorem one_sub_cosine_sq_pos (hA : OnSphere A) (hB : OnSphere B) (hne : A ⨯₃ B ≠ 0) :
    0 < 1 - (A ⬝ᵥ B) ^ 2 := by
  have h := dot_self_pos hne
  rw [cross_dot_self, show A ⬝ᵥ A = 1 from hA, show B ⬝ᵥ B = 1 from hB] at h
  linarith

/-- A point of a great circle is a combination of the two points through which it goes. -/
theorem exists_coefficients (hA : OnSphere A) (hB : OnSphere B) (hplane : P ⬝ᵥ (A ⨯₃ B) = 0)
    (hne : A ⨯₃ B ≠ 0) : ∃ a b : ℝ, P = a • A + b • B := by
  have hpos := one_sub_cosine_sq_pos hA hB hne
  have h := congrArg (fun v => (1 - (A ⬝ᵥ B) ^ 2)⁻¹ • v) (decompose A B P)
  rw [show A ⬝ᵥ A = 1 from hA, show B ⬝ᵥ B = 1 from hB, hplane, zero_smul, add_zero, one_mul,
    one_mul, one_mul] at h
  simp only [smul_add, smul_smul] at h
  rw [inv_mul_cancel₀ (ne_of_gt hpos), one_smul] at h
  exact ⟨_, _, h⟩

/-- The two cosines of a point of a great circle determine each other. -/
theorem cosines_of_combination (hA : OnSphere A) (hB : OnSphere B) (hP : OnSphere P) {a b : ℝ}
    (h : P = a • A + b • B) :
    (P ⬝ᵥ A) ^ 2 + (P ⬝ᵥ B) ^ 2 - 2 * (A ⬝ᵥ B) * (P ⬝ᵥ A) * (P ⬝ᵥ B) = 1 - (A ⬝ᵥ B) ^ 2 := by
  obtain ⟨hdotA, hdotB⟩ := dots_of_combination hA hB h
  have hone : a * (P ⬝ᵥ A) + b * (P ⬝ᵥ B) = 1 := by
    calc a * (P ⬝ᵥ A) + b * (P ⬝ᵥ B) = P ⬝ᵥ (a • A + b • B) := by
          rw [dotProduct_add, dotProduct_smul, dotProduct_smul, smul_eq_mul, smul_eq_mul]
      _ = 1 := by rw [← h]; exact hP
  rw [hdotA, hdotB] at hone ⊢
  linear_combination (1 - (A ⬝ᵥ B) ^ 2) * hone

theorem coplanar_of_mem_arc (h : P ∈ Arc A B) : P ⬝ᵥ (A ⨯₃ B) = 0 := by
  obtain ⟨_, a, b, _, rfl⟩ := h
  rw [add_dotProduct, smul_dotProduct, smul_dotProduct, dot_self_cross, dot_cross_self]
  simp

/-- A number that is at least as large as two cosines which determine each other. -/
theorem le_of_cosines {k p q : ℝ} (hk : -(1 / 2) < k) (hk1 : k < 1) (hq : q ≤ 1) (hp : k ≤ p)
    (hkq : k ≤ q) (h : p ^ 2 + q ^ 2 - 2 * k * p * q = 1 - k ^ 2) : k * q ≤ p := by
  by_contra hno
  have hlt : p < k * q := not_le.mp hno
  have hsq : (k * q - p) ^ 2 = (1 - k ^ 2) * (1 - q ^ 2) := by linear_combination h
  -- then `k` is negative, and the square of `k * (q - 1)` is too large
  have hle : k * q - p ≤ k * (q - 1) := by linarith
  have hpos : 0 < k * q - p := by linarith
  have hq1 : 0 < 1 - q := by
    rcases lt_or_eq_of_le hq with hlt' | rfl
    · linarith
    · linarith
  have hsq' : (1 - k ^ 2) * (1 - q ^ 2) ≤ (k * (q - 1)) ^ 2 := by
    rw [← hsq]
    exact pow_le_pow_left₀ (le_of_lt hpos) hle 2
  have hfactor : (1 - q) * ((1 - k ^ 2) * (1 + q)) ≤ (1 - q) * (k ^ 2 * (1 - q)) := by
    calc (1 - q) * ((1 - k ^ 2) * (1 + q)) = (1 - k ^ 2) * (1 - q ^ 2) := by ring
      _ ≤ (k * (q - 1)) ^ 2 := hsq'
      _ = (1 - q) * (k ^ 2 * (1 - q)) := by ring
  have hcancel : (1 - k ^ 2) * (1 + q) ≤ k ^ 2 * (1 - q) := le_of_mul_le_mul_left hfactor hq1
  have hroots : 0 ≤ (2 * k + 1) * (k - 1) := by nlinarith
  have hneg : (2 * k + 1) * (k - 1) < 0 := mul_neg_of_pos_of_neg (by linarith) (by linarith)
  linarith

/-- And the other way round. -/
theorem cosine_le {k p q : ℝ} (hk : k ^ 2 < 1) (hq : q ^ 2 ≤ 1) (h1 : k * q ≤ p) (h2 : k * p ≤ q)
    (h : p ^ 2 + q ^ 2 - 2 * k * p * q = 1 - k ^ 2) : k ≤ p := by
  by_contra hno
  have hlt : p < k := not_le.mp hno
  have hkpos : 0 < k := by
    by_contra hk0
    have : k * 1 ≤ k * q := mul_le_mul_of_nonpos_left (by nlinarith) (not_lt.mp hk0)
    linarith
  have hsq : (q - k * p) ^ 2 = (1 - k ^ 2) * (1 - p ^ 2) := by linear_combination h
  -- `(1 - k ^ 2) * p` is at least `k` times the root of this
  have hle : k * (q - k * p) ≤ (1 - k ^ 2) * p := by linarith
  have hsq' : k ^ 2 * ((1 - k ^ 2) * (1 - p ^ 2)) ≤ ((1 - k ^ 2) * p) ^ 2 := by
    calc k ^ 2 * ((1 - k ^ 2) * (1 - p ^ 2)) = (k * (q - k * p)) ^ 2 := by rw [← hsq]; ring
      _ ≤ ((1 - k ^ 2) * p) ^ 2 :=
        pow_le_pow_left₀ (mul_nonneg (le_of_lt hkpos) (by linarith)) hle 2
  have hpos : 0 < 1 - k ^ 2 := by linarith
  have hfactor : (1 - k ^ 2) * (k ^ 2 * (1 - p ^ 2)) ≤ (1 - k ^ 2) * ((1 - k ^ 2) * p ^ 2) := by
    calc (1 - k ^ 2) * (k ^ 2 * (1 - p ^ 2)) = k ^ 2 * ((1 - k ^ 2) * (1 - p ^ 2)) := by ring
      _ ≤ ((1 - k ^ 2) * p) ^ 2 := hsq'
      _ = (1 - k ^ 2) * ((1 - k ^ 2) * p ^ 2) := by ring
  have hcancel : k ^ 2 * (1 - p ^ 2) ≤ (1 - k ^ 2) * p ^ 2 := le_of_mul_le_mul_left hfactor hpos
  have hkp : k ^ 2 ≤ p ^ 2 := by linarith
  have hp0 : 0 ≤ p := by
    have hnonneg : 0 ≤ (1 - k ^ 2) * p :=
      le_trans (mul_nonneg (le_of_lt hkpos) (by linarith)) hle
    exact nonneg_of_mul_nonneg_right (by linarith) hpos
  have hle' := (pow_le_pow_iff_left₀ (le_of_lt hkpos) hp0 two_ne_zero).mp hkp
  linarith

/-- Of the great circle through two points that are less than a third of it apart the arc
has the points that are from neither further than the two are from each other. -/
theorem mem_arc_iff (hA : OnSphere A) (hB : OnSphere B) (hP : OnSphere P)
    (hplane : P ⬝ᵥ (A ⨯₃ B) = 0) (hk : -(1 / 2) < A ⬝ᵥ B) (hne : A ⨯₃ B ≠ 0) :
    P ∈ Arc A B ↔ A ⬝ᵥ B ≤ P ⬝ᵥ A ∧ A ⬝ᵥ B ≤ P ⬝ᵥ B := by
  have hpos := one_sub_cosine_sq_pos hA hB hne
  have hk1 : A ⬝ᵥ B < 1 := by nlinarith
  have hpA : (P ⬝ᵥ A) ^ 2 ≤ 1 := cosine_mem hP hA
  have hpB : (P ⬝ᵥ B) ^ 2 ≤ 1 := cosine_mem hP hB
  constructor
  · intro h
    obtain ⟨_, a, b, ⟨ha, hb⟩, hab⟩ := h
    have hcos := cosines_of_combination hA hB hP hab
    obtain ⟨hdotA, hdotB⟩ := dots_of_combination hA hB hab
    have h1 : A ⬝ᵥ B * (P ⬝ᵥ B) ≤ P ⬝ᵥ A := by
      rw [hdotA, hdotB]
      nlinarith
    have h2 : A ⬝ᵥ B * (P ⬝ᵥ A) ≤ P ⬝ᵥ B := by
      rw [hdotA, hdotB]
      nlinarith
    constructor
    · exact cosine_le (by linarith) hpB h1 h2 hcos
    · exact cosine_le (by linarith) hpA h2 h1 (by linarith)
  · intro h
    obtain ⟨h1, h2⟩ := h
    obtain ⟨a, b, hab⟩ := exists_coefficients hA hB hplane hne
    have hcos := cosines_of_combination hA hB hP hab
    obtain ⟨hdotA, hdotB⟩ := dots_of_combination hA hB hab
    have ha := le_of_cosines hk hk1 (by nlinarith) h1 h2 hcos
    have hb := le_of_cosines hk hk1 (by nlinarith) h2 h1 (by linarith)
    refine ⟨hP, a, b, ⟨?_, ?_⟩, hab⟩
    · have hscaled : 0 ≤ a * (1 - (A ⬝ᵥ B) ^ 2) := by
        rw [hdotA, hdotB] at ha
        linarith
      exact nonneg_of_mul_nonneg_left hscaled hpos
    · have hscaled : 0 ≤ b * (1 - (A ⬝ᵥ B) ^ 2) := by
        rw [hdotA, hdotB] at hb
        linarith
      exact nonneg_of_mul_nonneg_left hscaled hpos

/-- The points of an arc lie on the side of its ends. -/
theorem side_of_mem_arc (hA : OnSphere A) (hB : OnSphere B) (hk : -1 < A ⬝ᵥ B)
    (h : P ∈ Arc A B) : 0 < (A + B) ⬝ᵥ P := by
  obtain ⟨hP, a, b, ⟨ha, hb⟩, hab⟩ := h
  have hsum : 0 < a + b := by
    apply lt_of_le_of_ne (add_nonneg ha hb)
    intro h0
    have ha0 : a = 0 := by linarith
    have hb0 : b = 0 := by linarith
    rw [hab, ha0, hb0] at hP
    simp [OnSphere] at hP
  have heq : (A + B) ⬝ᵥ P = (a + b) * (1 + A ⬝ᵥ B) := by
    rw [hab]
    simp only [dotProduct_add, add_dotProduct, dotProduct_smul, smul_eq_mul]
    rw [show A ⬝ᵥ A = 1 from hA, show B ⬝ᵥ B = 1 from hB, dotProduct_comm B A]
    ring
  rw [heq]
  exact mul_pos hsum (by linarith)

/-- The point of the sphere in the direction of a vector. -/
noncomputable def onto (t : Fin 3 → ℝ) : Fin 3 → ℝ := (√(t ⬝ᵥ t))⁻¹ • t

theorem onto_onSphere {t : Fin 3 → ℝ} (h : t ≠ 0) : OnSphere (onto t) := by
  have hpos := dot_self_pos h
  rw [OnSphere, onto, smul_dotProduct, dotProduct_smul, smul_eq_mul, smul_eq_mul, ← mul_assoc,
    ← mul_inv, Real.mul_self_sqrt (le_of_lt hpos), inv_mul_cancel₀ (ne_of_gt hpos)]

/-- A point of the sphere that is a positive multiple of a vector. -/
theorem eq_onto {t : Fin 3 → ℝ} {r : ℝ} (hP : OnSphere P) (hr : 0 < r) (h : P = r • t) :
    P = onto t := by
  have hsq : r * (r * (t ⬝ᵥ t)) = 1 := by
    rw [OnSphere, h, smul_dotProduct, dotProduct_smul, smul_eq_mul, smul_eq_mul] at hP
    exact hP
  have hroot : √(t ⬝ᵥ t) = r⁻¹ := by
    rw [show t ⬝ᵥ t = r⁻¹ ^ 2 by field_simp; linarith]
    exact Real.sqrt_sq (le_of_lt (inv_pos.mpr hr))
  rw [onto, hroot, inv_inv]
  exact h

/-- The common points of two arcs lie on the side of the four ends. -/
theorem side_of_mem_arcs (hA : OnSphere A) (hB : OnSphere B) (hC : OnSphere C) (hD : OnSphere D)
    (hAB : -1 < A ⬝ᵥ B) (hCD : -1 < C ⬝ᵥ D) (h₁ : P ∈ Arc A B) (h₂ : P ∈ Arc C D) :
    0 < (A + (B + (C + D))) ⬝ᵥ P := by
  have hs₁ := side_of_mem_arc hA hB hAB h₁
  have hs₂ := side_of_mem_arc hC hD hCD h₂
  rw [← add_assoc, add_dotProduct]
  exact add_pos hs₁ hs₂

/-- Two arcs do not meet when neither of the two points that their circles share is on
the side of the four ends. -/
theorem not_meet (hA : OnSphere A) (hB : OnSphere B) (hC : OnSphere C) (hD : OnSphere D)
    (hAB : -1 < A ⬝ᵥ B) (hCD : -1 < C ⬝ᵥ D) (hne : (A ⨯₃ B) ⨯₃ (C ⨯₃ D) ≠ 0)
    (hside : (A + (B + (C + D))) ⬝ᵥ ((A ⨯₃ B) ⨯₃ (C ⨯₃ D)) = 0) :
    ¬ ∃ P, P ∈ Arc A B ∧ P ∈ Arc C D := by
  intro h
  obtain ⟨P, h₁, h₂⟩ := h
  have hpos := side_of_mem_arcs hA hB hC hD hAB hCD h₁ h₂
  rw [eq_smul_cross (coplanar_of_mem_arc h₁) (coplanar_of_mem_arc h₂) hne, dotProduct_smul, hside]
    at hpos
  simp at hpos

/-- Two arcs on different great circles meet exactly when the point that the circles
share on the side of the four ends is on both of them. -/
theorem meet_iff (hA : OnSphere A) (hB : OnSphere B) (hC : OnSphere C) (hD : OnSphere D)
    (hAB : -(1 / 2) < A ⬝ᵥ B) (hCD : -(1 / 2) < C ⬝ᵥ D) (hne : (A ⨯₃ B) ⨯₃ (C ⨯₃ D) ≠ 0)
    {t : Fin 3 → ℝ} (ht₁ : t ⬝ᵥ (A ⨯₃ B) = 0) (ht₂ : t ⬝ᵥ (C ⨯₃ D) = 0)
    (hside : 0 < (A + (B + (C + D))) ⬝ᵥ t) :
    (∃ P, P ∈ Arc A B ∧ P ∈ Arc C D) ↔
      (A ⬝ᵥ B ≤ onto t ⬝ᵥ A ∧ A ⬝ᵥ B ≤ onto t ⬝ᵥ B) ∧
        C ⬝ᵥ D ≤ onto t ⬝ᵥ C ∧ C ⬝ᵥ D ≤ onto t ⬝ᵥ D := by
  have hne₁ : A ⨯₃ B ≠ 0 := by
    intro h
    rw [h] at hne
    simp at hne
  have hne₂ : C ⨯₃ D ≠ 0 := by
    intro h
    rw [h] at hne
    simp at hne
  have ht : t ≠ 0 := by
    intro h
    rw [h, dotProduct_zero] at hside
    exact lt_irrefl 0 hside
  have hplane : ∀ n : Fin 3 → ℝ, t ⬝ᵥ n = 0 → onto t ⬝ᵥ n = 0 := by
    intro n hn
    rw [onto, smul_dotProduct, hn, smul_zero]
  have hiff₁ := mem_arc_iff hA hB (onto_onSphere ht) (hplane _ ht₁) hAB hne₁
  have hiff₂ := mem_arc_iff hC hD (onto_onSphere ht) (hplane _ ht₂) hCD hne₂
  rw [← hiff₁, ← hiff₂]
  constructor
  · intro h
    obtain ⟨P, h₁, h₂⟩ := h
    have hpos := side_of_mem_arcs hA hB hC hD (by linarith) (by linarith) h₁ h₂
    have hP := eq_smul_cross (coplanar_of_mem_arc h₁) (coplanar_of_mem_arc h₂) hne
    have ht' := eq_smul_cross ht₁ ht₂ hne
    generalize (A ⨯₃ B) ⨯₃ (C ⨯₃ D) = i at hP ht' hne
    generalize P ⬝ᵥ i / (i ⬝ᵥ i) = r at hP
    generalize t ⬝ᵥ i / (i ⬝ᵥ i) = s at ht'
    -- both are multiples of one vector, on the same side
    have hs : s ≠ 0 := by
      intro h0
      rw [h0, zero_smul] at ht'
      exact ht ht'
    have hmultiple : P = (r / s) • t := by
      rw [hP, ht', smul_smul, div_mul_cancel₀ r hs]
    have hratio : 0 < r / s := by
      rw [hmultiple, dotProduct_smul, smul_eq_mul] at hpos
      exact (mul_pos_iff_of_pos_right hside).mp hpos
    rw [← eq_onto h₁.1 hratio hmultiple]
    exact ⟨h₁, h₂⟩
  · intro h
    exact ⟨onto t, h⟩

end GreatCircle
