import SeaRouter.Router.HubLRouter

/-!
# The best common label

`mergeLoop` walks over the labels of both sides in the order of their nodes.
It reads one element ahead, so each side needs one more element behind its
labels; `Reads` says that a side has the labels `l` and this element.

`mergeLoop_spec` says that the loop finds a common label of smallest total
distance, unless that reaches `MAX_VALUE`.  Of several such labels it takes the
one with the smallest node.
-/

namespace SeaRouter

open Java

namespace HubLRouter

/-- A side whose labels, from the index `off` on, are `l`: pairs of a node and
its distance. -/
structure Reads (A : Side) (off : Int) (l : List (Int × Int)) : Prop where
  node : ∀ (i : Nat) (h d : Int), l[i]? = some (h, d) → A.node (off + i) = .ok h
  dist : ∀ (i : Nat) (h d : Int), l[i]? = some (h, d) → A.dist (off + i) = .ok d
  next : ∃ x, A.node (off + l.length) = .ok x

/-- The selection before the loop. -/
def noSelection : Selection :=
  { highestLvlNode := -1, currDistance := MAX_VALUE, idxA := -1, idxB := -1 }

/-- The best common label of two lists, if there is one below `MAX_VALUE`. -/
structure Selected (offA offB : Int) (la lb : List (Int × Int)) (i j : Nat) (best : Selection) :
    Prop where
  found : best = noSelection ∨ ∃ i' j' h a b, i' < i ∧ j' < j ∧ la[i']? = some (h, a) ∧
    lb[j']? = some (h, b) ∧ a + b < MAX_VALUE ∧
    best = { highestLvlNode := h, currDistance := a + b, idxA := offA + (i' : Nat)
             idxB := offB + (j' : Nat) }
  least : ∀ (i' j' : Nat) (h a b : Int), la[i']? = some (h, a) → lb[j']? = some (h, b) →
    (i ≤ i' ∧ j ≤ j') ∨ best.currDistance < a + b ∨
      best.currDistance = a + b ∧ best.highestLvlNode ≤ h ∨ MAX_VALUE ≤ a + b

variable {A B : Side} {offA offB : Int} {la lb : List (Int × Int)}

/-- The state of the loop, with the labels before `i` and `j` behind it. -/
structure Merges (A B : Side) (offA offB : Int) (la lb : List (Int × Int)) (i j : Nat)
    (s : Merging) : Prop where
  leA : i ≤ la.length
  leB : j ≤ lb.length
  offsetA : s.currOffsetA = offA + i
  offsetB : s.currOffsetB = offB + j
  nodeA : A.node s.currOffsetA = .ok s.nodeA
  nodeB : B.node s.currOffsetB = .ok s.nodeB
  best : Selected offA offB la lb i j s.best

/-- The node at an index at most the number of the labels can be read. -/
theorem Reads.exists_node (h : Reads A offA la) {i : Nat} (hi : i ≤ la.length) :
    ∃ x, A.node (offA + i) = .ok x := by
  by_cases hlt : i < la.length
  · obtain ⟨⟨x, d⟩, hx⟩ : ∃ p, la[i]? = some p := ⟨_, List.getElem?_eq_getElem hlt⟩
    exact ⟨x, h.node i x d hx⟩
  · have : i = la.length := by omega
    rw [this]
    exact h.next

/-- In a list sorted by its nodes the index decides the order. -/
theorem node_lt {l : List (Int × Int)} (hs : (l.map Prod.fst).Pairwise (· < ·)) {i j : Nat}
    {x y : Int × Int} (hi : l[i]? = some x) (hj : l[j]? = some y) (hij : i < j) : x.1 < y.1 := by
  obtain ⟨hi', rfl⟩ := List.getElem?_eq_some_iff.mp hi
  obtain ⟨hj', rfl⟩ := List.getElem?_eq_some_iff.mp hj
  have := List.pairwise_iff_getElem.mp hs i j (by simpa using hi') (by simpa using hj') hij
  simpa using this

/-- The node of a common label that is not behind both indices was compared. -/
theorem Selected.advance {i j i₁ j₁ : Nat} {best best' : Selection}
    (h : Selected offA offB la lb i j best) (hi : i ≤ i₁) (hj : j ≤ j₁)
    (hbest : best' = best ∨ ∃ h a b, la[i]? = some (h, a) ∧ lb[j]? = some (h, b) ∧
      i < i₁ ∧ j < j₁ ∧ a + b < best.currDistance ∧ a + b < MAX_VALUE ∧
      best' = { highestLvlNode := h, currDistance := a + b, idxA := offA + (i : Nat)
                idxB := offB + (j : Nat) })
    (hpass : ∀ (i' j' : Nat) (x a b : Int), la[i']? = some (x, a) → lb[j']? = some (x, b) →
      i ≤ i' → j ≤ j' → (i₁ ≤ i' ∧ j₁ ≤ j') ∨ best'.currDistance < a + b ∨
        best'.currDistance = a + b ∧ best'.highestLvlNode ≤ x ∨ MAX_VALUE ≤ a + b) :
    Selected offA offB la lb i₁ j₁ best' := by
  have hle : best'.currDistance ≤ best.currDistance := by
    rcases hbest with rfl | ⟨x, a, b, _, _, _, _, hlt, _, rfl⟩
    · exact le_refl _
    · exact le_of_lt hlt
  constructor
  · rcases hbest with rfl | ⟨x, a, b, ha, hb, hi', hj', _, hmax, rfl⟩
    · rcases h.found with h0 | ⟨i', j', x, a, b, h1, h2, h3⟩
      · exact Or.inl h0
      · exact Or.inr ⟨i', j', x, a, b, by omega, by omega, h3⟩
    · exact Or.inr ⟨i, j, x, a, b, hi', hj', ha, hb, hmax, rfl⟩
  · intro i' j' x a b ha hb
    rcases h.least i' j' x a b ha hb with ⟨h1, h2⟩ | hlt | ⟨heq, hnode⟩ | hmax
    · exact hpass i' j' x a b ha hb h1 h2
    · exact Or.inr (Or.inl (by omega))
    · rcases hbest with rfl | ⟨y, a', b', _, _, _, _, hlt, _, rfl⟩
      · exact Or.inr (Or.inr (Or.inl ⟨heq, hnode⟩))
      · exact Or.inr (Or.inl (by simp only; omega))
    · exact Or.inr (Or.inr (Or.inr hmax))

/-- The node of a label from the index `i` on. -/
theorem le_node {l : List (Int × Int)} (hs : (l.map Prod.fst).Pairwise (· < ·)) {i j : Nat}
    {x y : Int × Int} (hi : l[i]? = some x) (hj : l[j]? = some y) (hij : i ≤ j) : x.1 ≤ y.1 := by
  rcases Nat.lt_or_eq_of_le hij with hlt | rfl
  · exact le_of_lt (node_lt hs hi hj hlt)
  · rw [hi, Option.some.injEq] at hj
    rw [hj]

theorem Selected.le_max {i j : Nat} {best : Selection} (h : Selected offA offB la lb i j best) :
    best.currDistance ≤ MAX_VALUE := by
  rcases h.found with rfl | ⟨_, _, _, a, b, _, _, _, _, hmax, rfl⟩
  · exact le_refl _
  · exact le_of_lt hmax

/-- The selection after a common label was looked at. -/
theorem Selected.common {i j : Nat} {best : Selection} (h : Selected offA offB la lb i j best)
    (hsA : (la.map Prod.fst).Pairwise (· < ·)) (hsB : (lb.map Prod.fst).Pairwise (· < ·))
    {x a b : Int} (hx : la[i]? = some (x, a)) (hy : lb[j]? = some (x, b)) :
    Selected offA offB la lb (i + 1) (j + 1)
      (if a + b < best.currDistance then
        { highestLvlNode := x, currDistance := a + b, idxA := offA + (i : Nat)
          idxB := offB + (j : Nat) }
      else best) := by
  have hmax := h.le_max
  apply h.advance (Nat.le_succ i) (Nat.le_succ j)
  · split_ifs with hlt
    · exact Or.inr ⟨x, a, b, hx, hy, by omega, by omega, hlt, by omega, rfl⟩
    · exact Or.inl rfl
  · intro i' j' z a' b' ha' hb' hi' hj'
    rcases Nat.lt_or_eq_of_le hi' with hi' | rfl
    · rcases Nat.lt_or_eq_of_le hj' with hj' | rfl
      · exact Or.inl ⟨hi', hj'⟩
      · -- the same node twice on the left side
        have h1 := node_lt hsA hx ha' hi'
        rw [hy, Option.some.injEq, Prod.mk.injEq] at hb'
        have : x < z := h1
        omega
    · rw [hx, Option.some.injEq, Prod.mk.injEq] at ha'
      obtain ⟨rfl, rfl⟩ := ha'
      have hjj : j' = j := by
        rcases Nat.lt_or_eq_of_le hj' with hj' | rfl
        · have : x < x := node_lt hsB hy hb' hj'
          omega
        · rfl
      subst hjj
      rw [hy, Option.some.injEq, Prod.mk.injEq] at hb'
      obtain ⟨_, rfl⟩ := hb'
      right
      split_ifs with hlt
      · exact Or.inr (Or.inl ⟨rfl, le_refl x⟩)
      · rcases lt_or_eq_of_le (not_lt.mp hlt) with hlt' | heq
        · exact Or.inl hlt'
        · rcases h.found with rfl | ⟨i₀, j₀, x₀, a₀, b₀, hi₀, _, hx₀, _, _, rfl⟩
          · exact Or.inr (Or.inr (le_of_eq heq))
          · have : x₀ < x := node_lt hsA hx₀ hx hi₀
            exact Or.inr (Or.inl ⟨heq, le_of_lt this⟩)

/-- A smaller node on the right side has no partner. -/
theorem Selected.passB {i j : Nat} {best : Selection} (h : Selected offA offB la lb i j best)
    (hsA : (la.map Prod.fst).Pairwise (· < ·)) {x y : Int × Int} (hx : la[i]? = some x)
    (hy : lb[j]? = some y) (hlt : y.1 < x.1) : Selected offA offB la lb i (j + 1) best := by
  apply h.advance (le_refl i) (Nat.le_succ j) (Or.inl rfl)
  intro i' j' z a b ha hb hi hj
  rcases Nat.lt_or_eq_of_le hj with hj | rfl
  · exact Or.inl ⟨hi, hj⟩
  · have h1 := le_node hsA hx ha hi
    rw [hy, Option.some.injEq] at hb
    rw [hb] at hlt
    have : z < z := lt_of_lt_of_le hlt h1
    omega

/-- A smaller node on the left side has no partner. -/
theorem Selected.passA {i j : Nat} {best : Selection} (h : Selected offA offB la lb i j best)
    (hsB : (lb.map Prod.fst).Pairwise (· < ·)) {x y : Int × Int} (hx : la[i]? = some x)
    (hy : lb[j]? = some y) (hlt : x.1 < y.1) : Selected offA offB la lb (i + 1) j best := by
  apply h.advance (Nat.le_succ i) (le_refl j) (Or.inl rfl)
  intro i' j' z a b ha hb hi hj
  rcases Nat.lt_or_eq_of_le hi with hi | rfl
  · exact Or.inl ⟨hi, hj⟩
  · have h1 := le_node hsB hy hb hj
    rw [hx, Option.some.injEq] at ha
    rw [ha] at hlt
    have : z < z := lt_of_lt_of_le hlt h1
    omega

theorem mergeStep_spec (hA : Reads A offA la) (hB : Reads B offB lb)
    (hsA : (la.map Prod.fst).Pairwise (· < ·)) (hsB : (lb.map Prod.fst).Pairwise (· < ·))
    {i j : Nat} {s : Merging} (h : Merges A B offA offB la lb i j s) (hi : i < la.length)
    (hj : j < lb.length) :
    ∃ s' i' j', mergeStep A B s = .ok s' ∧ Merges A B offA offB la lb i' j' s' ∧
      (la.length - i') + (lb.length - j') < (la.length - i) + (lb.length - j) := by
  obtain ⟨⟨x, a⟩, hx⟩ : ∃ p, la[i]? = some p := ⟨_, List.getElem?_eq_getElem hi⟩
  obtain ⟨⟨y, b⟩, hy⟩ : ∃ p, lb[j]? = some p := ⟨_, List.getElem?_eq_getElem hj⟩
  have hnA := hA.node i x a hx
  have hnB := hB.node j y b hy
  have hxA : s.nodeA = x := by
    have := h.nodeA
    rw [h.offsetA, hnA, Except.ok.injEq] at this
    exact this.symm
  have hyB : s.nodeB = y := by
    have := h.nodeB
    rw [h.offsetB, hnB, Except.ok.injEq] at this
    exact this.symm
  obtain ⟨x', hx'⟩ := hA.exists_node (i := i + 1) (by omega)
  obtain ⟨y', hy'⟩ := hB.exists_node (i := j + 1) (by omega)
  have hoffA : s.currOffsetA + 1 = offA + (i + 1 : Nat) := by
    rw [h.offsetA]
    push_cast
    ring
  have hoffB : s.currOffsetB + 1 = offB + (j + 1 : Nat) := by
    rw [h.offsetB]
    push_cast
    ring
  rw [← hoffA] at hx'
  rw [← hoffB] at hy'
  unfold mergeStep
  rw [hxA, hyB]
  by_cases hxy : x = y
  · -- a common label: it may be better than the best one so far
    subst hxy
    have hdA : A.dist s.currOffsetA = .ok a := by rw [h.offsetA]; exact hA.dist i x a hx
    have hdB : B.dist s.currOffsetB = .ok b := by rw [h.offsetB]; exact hB.dist j x b hy
    rw [if_pos rfl, hdA, ok_bind, hdB, ok_bind]
    simp only [hx', hy', ok_bind, pure_eq_ok]
    refine ⟨_, i + 1, j + 1, rfl, ⟨by omega, by omega, hoffA, hoffB, hx', hy', ?_⟩, by omega⟩
    have hbest := h.best.common hsA hsB hx hy
    rw [← h.offsetA, ← h.offsetB] at hbest
    exact hbest
  · rw [if_neg hxy]
    by_cases hlt : y < x
    · rw [if_pos hlt]
      simp only [hy', ok_bind, pure_eq_ok]
      refine ⟨_, i, j + 1, rfl, ⟨by omega, by omega, h.offsetA, hoffB, hxA ▸ h.nodeA, hy', ?_⟩,
        by omega⟩
      exact h.best.passB hsA hx hy hlt
    · rw [if_neg hlt]
      simp only [hx', ok_bind, pure_eq_ok]
      refine ⟨_, i + 1, j, rfl, ⟨by omega, by omega, hoffA, h.offsetB, hx', hyB ▸ h.nodeB, ?_⟩,
        by omega⟩
      exact h.best.passA hsB hx hy (show x < y by omega)

/-- What the loop has found at its end. -/
structure IsBest (offA offB : Int) (la lb : List (Int × Int)) (best : Selection) : Prop where
  found : best = noSelection ∨ ∃ (i j : Nat) (h a b : Int), la[i]? = some (h, a) ∧
    lb[j]? = some (h, b) ∧ a + b < MAX_VALUE ∧
    best = { highestLvlNode := h, currDistance := a + b, idxA := offA + (i : Nat)
             idxB := offB + (j : Nat) }
  least : ∀ h a b, (h, a) ∈ la → (h, b) ∈ lb → a + b < MAX_VALUE →
    best.currDistance < a + b ∨ best.currDistance = a + b ∧ best.highestLvlNode ≤ h

theorem mergeLoop_spec (hA : Reads A offA la) (hB : Reads B offB lb)
    (hsA : (la.map Prod.fst).Pairwise (· < ·)) (hsB : (lb.map Prod.fst).Pairwise (· < ·)) :
    ∃ best, mergeLoop A B offA (offA + la.length) offB (offB + lb.length) = .ok best ∧
      IsBest offA offB la lb best := by
  obtain ⟨x, hx⟩ := hA.exists_node (Nat.zero_le la.length)
  obtain ⟨y, hy⟩ := hB.exists_node (Nat.zero_le lb.length)
  rw [Nat.cast_zero, add_zero] at hx hy
  have hstart : Merges A B offA offB la lb 0 0
      { currOffsetA := offA, currOffsetB := offB, nodeA := x, nodeB := y, best := noSelection } := by
    refine ⟨by omega, by omega, by simp, by simp, hx, hy, Or.inl rfl, ?_⟩
    intro i' j' h a b _ _
    exact Or.inl ⟨by omega, by omega⟩
  obtain ⟨s, k, hrun, ⟨i, j, hs, rfl⟩, hend⟩ := whileLoop_bounded
    (c := fun s : Merging => return (decide (s.currOffsetA < offA + la.length) &&
      decide (s.currOffsetB < offB + lb.length)))
    (f := mergeStep A B)
    (I := fun k s => ∃ i j, Merges A B offA offB la lb i j s ∧
      (la.length - i) + (lb.length - j) = k)
    (fun k s _ => ⟨_, rfl⟩) (by
      rintro k s ⟨i, j, hs, rfl⟩ hguard
      have hguard : s.currOffsetA < offA + la.length ∧ s.currOffsetB < offB + lb.length := by
        simpa using hguard
      rw [hs.offsetA, hs.offsetB] at hguard
      obtain ⟨s', i', j', hstep, hs', hlt⟩ := mergeStep_spec hA hB hsA hsB hs
        (by omega) (by omega)
      exact ⟨s', _, hstep, ⟨i', j', hs', rfl⟩, hlt⟩)
    (la.length + lb.length) _ _ ⟨0, 0, hstart, rfl⟩ (by omega)
  have hfuel : (offA + la.length - offA).toNat + (offB + lb.length - offB).toNat =
      la.length + lb.length := by omega
  refine ⟨s.best, ?_, ?_, ?_⟩
  · rw [mergeLoop, hx, ok_bind, hy, ok_bind, hfuel]
    have hrun' : whileLoop _ (mergeStep A B) (la.length + lb.length)
      { currOffsetA := offA, currOffsetB := offB, nodeA := x, nodeB := y, best := noSelection } =
        _ := hrun
    rw [noSelection] at hrun'
    rw [hrun']
    rfl
  · rcases hs.best.found with h0 | ⟨i', j', h, a, b, _, _, h1, h2, h3⟩
    · exact Or.inl h0
    · exact Or.inr ⟨i', j', h, a, b, h1, h2, h3⟩
  · intro h a b ha hb hmax
    obtain ⟨i', hi', ha'⟩ := List.mem_iff_getElem.mp ha
    obtain ⟨j', hj', hb'⟩ := List.mem_iff_getElem.mp hb
    have hend : offA + la.length ≤ s.currOffsetA ∨ offB + lb.length ≤ s.currOffsetB := by
      by_contra hcon
      push Not at hcon
      simp [hcon.1, hcon.2] at hend
    rw [hs.offsetA, hs.offsetB] at hend
    rcases hs.best.least i' j' h a b (by rw [List.getElem?_eq_getElem hi', ha'])
      (by rw [List.getElem?_eq_getElem hj', hb']) with ⟨h1, h2⟩ | h3 | h3 | h3
    · omega
    · exact Or.inl h3
    · exact Or.inr h3
    · omega

end HubLRouter

end SeaRouter
