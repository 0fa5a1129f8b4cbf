import SeaRouter.Utils.OrderedIntSet

/-!
# `hublablecreation/Labels.java`

The labels found so far, three arrays for each node.  The arrays of a node
without labels are `null`.  `isRedundant_spec` says what the merge of the
labels of two nodes looks for.
-/

namespace SeaRouter

open Java

/-- The static fields of `Labels`. -/
structure Labels where
  labelNodes : List (Option (List Int))
  labelEdges : List (Option (List Int))
  labelDist : List (Option (List Int))
deriving DecidableEq, Repr

namespace Labels

/-- `initialize(nodeCount)`. -/
def new (nodeCount : Nat) : Labels where
  labelNodes := List.replicate nodeCount none
  labelEdges := List.replicate nodeCount none
  labelDist := List.replicate nodeCount none

/-- The use of an array that may be `null`. -/
def deref {α : Type} : Option α → Run α
  | none => throw .nullPointer
  | some a => return a

def getLabels (L : Labels) (nodeId : Int) : Run (List Int) := do
  deref (← rd L.labelNodes nodeId)

def getDist (L : Labels) (nodeId : Int) : Run (List Int) := do
  deref (← rd L.labelDist nodeId)

def addLabels (L : Labels) (nodeId : Int) (labelIds edgeIds dists : List Int) : Run Labels := do
  let labelNodes ← wr L.labelNodes nodeId (some labelIds)
  let labelEdges ← wr L.labelEdges nodeId (some edgeIds)
  let labelDist ← wr L.labelDist nodeId (some dists)
  return { labelNodes, labelEdges, labelDist }

/-- The loop of `isRedundant`, at the indices `checkIdx` and `labelIdx`. -/
def redundantLoop (checkLabels checkLabelDist : List Int) (toCheck checkDist : Int)
    (labels checkDists : OrderedIntSet) : Nat → Int → Int → Run Bool
  | 0, checkIdx, labelIdx =>
    if checkIdx < checkLabels.length ∧ labelIdx < labels.size then throw .outOfFuel
    else return false
  | fuel + 1, checkIdx, labelIdx =>
    if checkIdx < checkLabels.length ∧ labelIdx < labels.size then do
      let checkNode ← rd checkLabels checkIdx
      let labelNode ← labels.get labelIdx
      if checkNode = labelNode then
        let newDist := (← checkDists.get labelIdx) + (← rd checkLabelDist checkIdx)
        if newDist ≤ checkDist ∧ ¬ checkNode = toCheck then return true
        else
          redundantLoop checkLabels checkLabelDist toCheck checkDist labels checkDists fuel
            (checkIdx + 1) (labelIdx + 1)
      else if checkNode < labelNode then
        redundantLoop checkLabels checkLabelDist toCheck checkDist labels checkDists fuel
          (checkIdx + 1) labelIdx
      else
        redundantLoop checkLabels checkLabelDist toCheck checkDist labels checkDists fuel
          checkIdx (labelIdx + 1)
    else return false

/-- `isRedundant(toCheck, checkDist, labels, checkDists)`; each iteration passes
a label of one of the two nodes. -/
def isRedundant (L : Labels) (toCheck checkDist : Int) (labels checkDists : OrderedIntSet) :
    Run Bool := do
  let checkLabels ← getLabels L toCheck
  let checkLabelDist ← getDist L toCheck
  redundantLoop checkLabels checkLabelDist toCheck checkDist labels checkDists
    (checkLabels.length + labels.size.toNat) 0 0

/-- All three arrays have one element for each node. -/
structure Sized (L : Labels) (n : Nat) : Prop where
  nodes : L.labelNodes.length = n
  edges : L.labelEdges.length = n
  dists : L.labelDist.length = n

/-- The labels with new ones for the node `u`. -/
def put (L : Labels) (u : Int) (hs es ds : List Int) : Labels where
  labelNodes := L.labelNodes.set u.toNat (some hs)
  labelEdges := L.labelEdges.set u.toNat (some es)
  labelDist := L.labelDist.set u.toNat (some ds)

theorem addLabels_eq {L : Labels} {n : Nat} (h : Sized L n) {u : Int} (h0 : 0 ≤ u) (h1 : u < n)
    (hs es ds : List Int) : addLabels L u hs es ds = .ok (put L u hs es ds) := by
  unfold addLabels
  rw [wr_of_bounds _ h0 (by rw [h.nodes]; exact h1), ok_bind,
    wr_of_bounds _ h0 (by rw [h.edges]; exact h1), ok_bind,
    wr_of_bounds _ h0 (by rw [h.dists]; exact h1), ok_bind]
  rfl

theorem Sized.put {L : Labels} {n : Nat} (h : Sized L n) (u : Int) (hs es ds : List Int) :
    Sized (L.put u hs es ds) n := by
  constructor
  · exact (List.length_set ..).trans h.nodes
  · exact (List.length_set ..).trans h.edges
  · exact (List.length_set ..).trans h.dists

/-! ## The merge -/

/-- Two nodes have a common label, other than the one that is checked, over
which the distance is not larger. -/
def Redundant (hs xs : List Int) (dh ds : List Int) (toCheck checkDist : Int) : Prop :=
  ∃ g a b, g ≠ toCheck ∧ assoc hs dh g = some a ∧ assoc xs ds g = some b ∧ b + a ≤ checkDist

/-- The same, among the labels from `i` on of the one node and from `j` on of the other. -/
def RedundantFrom (hs xs dh ds : List Int) (toCheck checkDist : Int) (i j : Nat) : Prop :=
  ∃ (i' j' : Nat) (g a d : Int), i ≤ i' ∧ j ≤ j' ∧ hs[i']? = some g ∧ xs[j']? = some g ∧
    g ≠ toCheck ∧ dh[i']? = some a ∧ ds[j']? = some d ∧ d + a ≤ checkDist

section RedundantFrom

variable {hs xs dh ds : List Int} {toCheck checkDist : Int} {i j : Nat}

theorem not_redundantFrom (hend : ¬ (i < hs.length ∧ j < xs.length)) :
    ¬ RedundantFrom hs xs dh ds toCheck checkDist i j := by
  intro hred
  obtain ⟨i', j', g, a, d, hi, hj, hg, hg', _⟩ := hred
  have h1 := (List.getElem?_eq_some_iff.mp hg).1
  have h2 := (List.getElem?_eq_some_iff.mp hg').1
  omega

theorem RedundantFrom.mono {i' j' : Nat} (hi : i ≤ i') (hj : j ≤ j')
    (h : RedundantFrom hs xs dh ds toCheck checkDist i' j') :
    RedundantFrom hs xs dh ds toCheck checkDist i j := by
  obtain ⟨i₁, j₁, g, a, d, h1, h2, hrest⟩ := h
  exact ⟨i₁, j₁, g, a, d, hi.trans h1, hj.trans h2, hrest⟩

/-- A common label that does not make the checked one redundant is passed on both sides. -/
theorem redundantFrom_both (hsh : hs.Pairwise (· < ·)) (hsx : xs.Pairwise (· < ·))
    {c a d : Int} (hc : hs[i]? = some c) (hx : xs[j]? = some c) (ha : dh[i]? = some a)
    (hd : ds[j]? = some d) (hno : ¬ (d + a ≤ checkDist ∧ ¬ c = toCheck)) :
    RedundantFrom hs xs dh ds toCheck checkDist (i + 1) (j + 1) ↔
      RedundantFrom hs xs dh ds toCheck checkDist i j := by
  constructor
  · exact RedundantFrom.mono (Nat.le_succ i) (Nat.le_succ j)
  · intro hred
    obtain ⟨i', j', g, a', d', h1, h2, hg, hg', hne, ha', hd', hle⟩ := hred
    -- the two positions of a common label: both are the first ones, or neither is
    have hij : i' = i ↔ j' = j := by
      constructor
      · intro hi
        subst hi
        rw [hc, Option.some.injEq] at hg
        subst hg
        rw [getElem?_eq_some_iff_rank hsx] at hg' hx
        omega
      · intro hj
        subst hj
        rw [hx, Option.some.injEq] at hg'
        subst hg'
        rw [getElem?_eq_some_iff_rank hsh] at hg hc
        omega
    have hlater : i' ≠ i := by
      intro hi
      obtain rfl := hij.mp hi
      subst hi
      rw [hc, Option.some.injEq] at hg
      rw [ha, Option.some.injEq] at ha'
      rw [hd, Option.some.injEq] at hd'
      subst hg
      exact hno ⟨by omega, hne⟩
    have hlater' : j' ≠ j := fun hj => hlater (hij.mpr hj)
    exact ⟨i', j', g, a', d', by omega, by omega, hg, hg', hne, ha', hd', hle⟩

/-- A label before all that are left of the other node is passed. -/
theorem redundantFrom_left (hsx : xs.Pairwise (· < ·)) {c x : Int} (hc : hs[i]? = some c)
    (hx : xs[j]? = some x) (hlt : c < x) :
    RedundantFrom hs xs dh ds toCheck checkDist (i + 1) j ↔
      RedundantFrom hs xs dh ds toCheck checkDist i j := by
  constructor
  · exact RedundantFrom.mono (Nat.le_succ i) (le_refl j)
  · intro hred
    obtain ⟨i', j', g, a', d', h1, h2, hg, hg', hrest⟩ := hred
    refine ⟨i', j', g, a', d', ?_, h2, hg, hg', hrest⟩
    by_contra hne
    obtain rfl : i' = i := by omega
    rw [hc, Option.some.injEq] at hg
    subst hg
    rcases eq_or_lt_of_le h2 with rfl | hjj
    · rw [hx, Option.some.injEq] at hg'
      omega
    · have := lt_of_getElem?_of_lt hsx hx hg' hjj
      omega

theorem redundantFrom_right (hsh : hs.Pairwise (· < ·)) {c x : Int} (hc : hs[i]? = some c)
    (hx : xs[j]? = some x) (hlt : x < c) :
    RedundantFrom hs xs dh ds toCheck checkDist i (j + 1) ↔
      RedundantFrom hs xs dh ds toCheck checkDist i j := by
  constructor
  · exact RedundantFrom.mono (le_refl i) (Nat.le_succ j)
  · intro hred
    obtain ⟨i', j', g, a', d', h1, h2, hg, hg', hrest⟩ := hred
    refine ⟨i', j', g, a', d', h1, ?_, hg, hg', hrest⟩
    by_contra hne
    obtain rfl : j' = j := by omega
    rw [hx, Option.some.injEq] at hg'
    subst hg'
    rcases eq_or_lt_of_le h1 with rfl | hii
    · rw [hc, Option.some.injEq] at hg
      omega
    · have := lt_of_getElem?_of_lt hsh hc hg hii
      omega

end RedundantFrom

theorem redundantLoop_spec {hs xs dh ds : List Int} {labels checkDists : OrderedIntSet}
    (hls : OrderedIntSet.Holds labels xs) (hds : OrderedIntSet.Holds checkDists ds)
    (hsh : hs.Pairwise (· < ·)) (hsx : xs.Pairwise (· < ·)) (hlh : dh.length = hs.length)
    (hlx : ds.length = xs.length) (toCheck checkDist : Int) :
    ∀ (fuel i j : Nat), (hs.length - i) + (xs.length - j) ≤ fuel →
      ∃ b, redundantLoop hs dh toCheck checkDist labels checkDists fuel i j = .ok b ∧
        (b = true ↔ RedundantFrom hs xs dh ds toCheck checkDist i j) := by
  have hsize : labels.size = xs.length := hls.count
  have hdone : ∀ (fuel i j : Nat), ¬ (i < hs.length ∧ j < xs.length) →
      ∃ b, redundantLoop hs dh toCheck checkDist labels checkDists fuel i j = .ok b ∧
        (b = true ↔ RedundantFrom hs xs dh ds toCheck checkDist i j) := by
    intro fuel i j hend
    refine ⟨false, ?_, by simpa using not_redundantFrom hend⟩
    cases fuel <;> rw [redundantLoop, hsize, if_neg (by omega)] <;> rfl
  intro fuel
  induction fuel with
  | zero =>
    intro i j hfuel
    exact hdone 0 i j (by omega)
  | succ fuel ih =>
    intro i j hfuel
    by_cases hin : i < hs.length ∧ j < xs.length
    · obtain ⟨hi, hj⟩ := hin
      have hci := List.getElem?_eq_getElem hi
      have hxj := List.getElem?_eq_getElem hj
      have hdi := List.getElem?_eq_getElem (l := dh) (i := i) (by omega)
      have hdj := List.getElem?_eq_getElem (l := ds) (i := j) (by omega)
      generalize hs[i] = c at hci
      generalize xs[j] = x at hxj
      generalize dh[i] = a at hdi
      generalize ds[j] = d at hdj
      have hcast : ∀ k : Nat, ((k + 1 : Nat) : Int) = (k : Int) + 1 := fun k => by push_cast; rfl
      rw [redundantLoop, hsize, if_pos (by omega), rd_of_getElem? hci, ok_bind,
        OrderedIntSet.get_spec hls hxj, ok_bind]
      by_cases hcx : c = x
      · subst hcx
        rw [if_pos rfl, OrderedIntSet.get_spec hds hdj, ok_bind, rd_of_getElem? hdi, ok_bind]
        by_cases hred : d + a ≤ checkDist ∧ ¬ c = toCheck
        · rw [if_pos hred]
          refine ⟨true, rfl, ?_⟩
          simp only [true_iff]
          exact ⟨i, j, c, a, d, le_refl i, le_refl j, hci, hxj, hred.2, hdi, hdj, hred.1⟩
        · rw [if_neg hred]
          obtain ⟨b, hb, hiff⟩ := ih (i + 1) (j + 1) (by omega)
          rw [hcast, hcast] at hb
          exact ⟨b, hb, hiff.trans (redundantFrom_both hsh hsx hci hxj hdi hdj hred)⟩
      · rw [if_neg hcx]
        by_cases hlt : c < x
        · rw [if_pos hlt]
          obtain ⟨b, hb, hiff⟩ := ih (i + 1) j (by omega)
          rw [hcast] at hb
          exact ⟨b, hb, hiff.trans (redundantFrom_left hsx hci hxj hlt)⟩
        · rw [if_neg hlt]
          obtain ⟨b, hb, hiff⟩ := ih i (j + 1) (by omega)
          rw [hcast] at hb
          exact ⟨b, hb, hiff.trans (redundantFrom_right hsh hci hxj (by omega))⟩
    · exact hdone (fuel + 1) i j hin

theorem isRedundant_spec {L : Labels} {x : Int} {hs xs dh ds : List Int}
    {labels checkDists : OrderedIntSet} (hnodes : getLabels L x = .ok hs)
    (hdist : getDist L x = .ok dh) (hls : OrderedIntSet.Holds labels xs)
    (hds : OrderedIntSet.Holds checkDists ds) (hsh : hs.Pairwise (· < ·))
    (hsx : xs.Pairwise (· < ·)) (hlh : dh.length = hs.length) (hlx : ds.length = xs.length)
    (checkDist : Int) :
    ∃ b, isRedundant L x checkDist labels checkDists = .ok b ∧
      (b = true ↔ Redundant hs xs dh ds x checkDist) := by
  obtain ⟨b, hb, hiff⟩ := redundantLoop_spec hls hds hsh hsx hlh hlx x checkDist
    (hs.length + labels.size.toNat) 0 0 (by rw [OrderedIntSet.size_eq hls]; simp)
  refine ⟨b, ?_, hiff.trans ?_⟩
  · rw [isRedundant, hnodes, ok_bind, hdist, ok_bind]
    exact hb
  · constructor
    · rintro ⟨i, j, g, a, d, _, _, hi, hj, hne, ha, hd, hle⟩
      refine ⟨g, a, d, hne, ?_, ?_, hle⟩
      · rw [assoc_of_getElem? (nodup_of_sorted hsh) hi, ha]
      · rw [assoc_of_getElem? (nodup_of_sorted hsx) hj, hd]
    · rintro ⟨g, a, d, hne, ha, hd, hle⟩
      obtain ⟨i, hi⟩ := List.mem_iff_getElem?.mp (mem_of_assoc ha)
      obtain ⟨j, hj⟩ := List.mem_iff_getElem?.mp (mem_of_assoc hd)
      rw [assoc_of_getElem? (nodup_of_sorted hsh) hi] at ha
      rw [assoc_of_getElem? (nodup_of_sorted hsx) hj] at hd
      exact ⟨i, j, g, a, d, Nat.zero_le i, Nat.zero_le j, hi, hj, hne, ha, hd, hle⟩

end Labels

end SeaRouter
