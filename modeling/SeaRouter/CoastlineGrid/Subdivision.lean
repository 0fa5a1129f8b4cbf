import SeaRouter.CoastlineGrid.CenterPoint
import SeaRouter.Lib.Fuel

/-!
# `coastlinegrid/GridParent.java`: how deep the tree of cells is

A lower cell with `EDGE_THRESHOLD` edges is divided again, however small it is.

* `buildLowerLevel_returns`, `shallow_of_buildLowerLevel`: the fuel that
  `buildLowerLevel` needs is the depth of the tree.
* `exists_shallow_iff_overfull`: the tree below a cell is infinite exactly when
  `EDGE_THRESHOLD` edges are in all cells of one path down from it.
* `overfull_of_meet`: so it is when that many edges begin or end at one point.
-/

namespace SeaRouter

open Java

/-- The cells on a path down from `b`; at each level it goes on with one of the 3 x 3
lower cells. -/
def Box.descend (b : Box) (path : Nat → Fin 3 × Fin 3) : Nat → Box
  | 0 => b
  | n + 1 => (GridParent.new (b.descend path n)).lowerBox (path n).1 (path n).2

/-- `EDGE_THRESHOLD` edges are in all cells of one path down from `b`. -/
def Overfull (I : IntersectionHelper) (c : CoastlineWays ℚ) (b : Box) : Prop :=
  ∃ (path : Nat → Fin 3 × Fin 3) (edges : Finset Int), GridCell.EDGE_THRESHOLD ≤ edges.card ∧
    ∀ e ∈ edges, ∀ n, isEdgeInCell I c (b.descend path n) e = .ok true

/-- The edges that are picked for a cell. -/
def edgesIn (I : IntersectionHelper) (c : CoastlineWays ℚ) (b : Box) (ids : List Int) : List Int :=
  ids.filter fun e => isEdgeInCell I c b e = .ok true

/-- The lower cells that are divided again, with their edges. -/
def dividedAgain (I : IntersectionHelper) (c : CoastlineWays ℚ) (cell : List Int × Box)
    (idx : Fin 3 × Fin 3) : Option (List Int × Box) :=
  let b := (GridParent.new cell.2).lowerBox idx.1 idx.2
  let edgesInCell := edgesIn I c b cell.1
  if GridCell.EDGE_THRESHOLD ≤ edgesInCell.length then some (edgesInCell, b) else none

/-- The ids of all edges. -/
def allIds (c : CoastlineWays ℚ) : List Int := indices 0 c.getNumberOfEdges

section subdivision

variable {I : IntersectionHelper} {c : CoastlineWays ℚ} {entryOrder : List Int → List Int} {b : Box}

/-! ## The edges of a cell -/

theorem mem_edgesIn {ids : List Int} {e : Int} :
    e ∈ edgesIn I c b ids ↔ e ∈ ids ∧ isEdgeInCell I c b e = .ok true := by
  simp [edgesIn]

theorem edgesIn_sublist (ids : List Int) : (edgesIn I c b ids).Sublist ids := List.filter_sublist

theorem isEdgeInCell_returns {e : Int} (h : c.IsEdge e) : ∃ r, isEdgeInCell I c b e = .ok r := by
  obtain ⟨p, q, h1, h2, h3, h4⟩ := h
  simp only [isEdgeInCell, h1, h2, h3, h4, ok_bind]
  split_ifs
  · exact ⟨_, rfl⟩
  · exact ⟨_, rfl⟩
  · exact ⟨_, rfl⟩
  · exact ⟨_, rfl⟩

theorem nodup_allIds : (allIds c).Nodup := by
  rw [allIds, indices]
  apply List.Nodup.map _ List.nodup_range
  intro a b h
  have h : 0 + (a : Int) = 0 + (b : Int) := h
  omega

/-- An edge that is picked has an id below `getNumberOfEdges`. -/
theorem mem_allIds_of_isEdgeInCell {e : Int} {r : Bool} (h : isEdgeInCell I c b e = .ok r) :
    e ∈ allIds c := by
  rw [isEdgeInCell, bind_eq_ok] at h
  obtain ⟨lat, hlat, _⟩ := h
  rw [CoastlineWays.getStartLatByEdgeIdx, bind_eq_ok] at hlat
  obtain ⟨x, hx, _⟩ := hlat
  exact mem_indices.mpr (rd_bounds hx)

/-- The loop over the edges picks those that are in the cell. -/
theorem foldlM_addEdgeInCell {ids : List Int} (hids : GridCell.AllEdges c ids)
    (hnodup : ids.Nodup) :
    ids.foldlM (addEdgeInCell I c b) [] = .ok (edgesIn I c b ids).reverse := by
  obtain ⟨set, hrun, rfl⟩ := foldlM_spec (f := addEdgeInCell I c b)
    (P := fun pre set => set = (edgesIn I c b pre).reverse) ids [] rfl (by
      intro pre e post set hsplit hset
      subst hset
      have he : e ∈ ids := by
        rw [hsplit]
        simp
      have hnew : e ∉ (edgesIn I c b pre).reverse := by
        intro hmem
        rw [List.mem_reverse] at hmem
        rw [hsplit, List.nodup_append] at hnodup
        exact hnodup.2.2 e ((edgesIn_sublist pre).subset hmem) e List.mem_cons_self rfl
      obtain ⟨r, hr⟩ := isEdgeInCell_returns (I := I) (b := b) (hids e he)
      cases r with
      | true =>
        refine ⟨(edgesIn I c b pre).reverse.insert e, by rw [addEdgeInCell, hr]; rfl, ?_⟩
        rw [List.insert_of_not_mem hnew, edgesIn, edgesIn, List.filter_append]
        simp [hr]
      | false =>
        refine ⟨(edgesIn I c b pre).reverse, by rw [addEdgeInCell, hr]; rfl, ?_⟩
        rw [edgesIn, edgesIn, List.filter_append]
        simp [hr])
  exact hrun

/-- In whatever order the set is visited. -/
theorem foldlM_entryOrder (horder : ∀ l, (entryOrder l).Perm l) {edgeIDs ids : List Int}
    (hids : GridCell.AllEdges c ids) (hnodup : ids.Nodup) (hperm : edgeIDs.Perm ids) :
    ∃ edgesInCell, (entryOrder edgeIDs).foldlM (addEdgeInCell I c b) [] = .ok edgesInCell ∧
      edgesInCell.Perm (edgesIn I c b ids) := by
  have hp : (entryOrder edgeIDs).Perm ids := (horder edgeIDs).trans hperm
  refine ⟨_, foldlM_addEdgeInCell (fun e he => hids e (hp.mem_iff.mp he)) (hp.nodup_iff.mpr hnodup),
    ?_⟩
  exact (List.reverse_perm _).trans (hp.filter _)

/-! ## The tree below a cell -/

theorem gridM_of_ok {α : Type} {f : Fin 3 → Fin 3 → Run α} {g : Fin 3 → Fin 3 → α}
    (h : ∀ i j, f i j = .ok (g i j)) : ∃ g', gridM f = .ok g' ∧ ∀ i j, g' i j = g i j := by
  simp only [gridM, h, ok_bind, pure_eq_ok]
  refine ⟨_, rfl, ?_⟩
  intro i j
  fin_cases i <;> fin_cases j <;> rfl

theorem gridM_throwsNothing {α : Type} {f : Fin 3 → Fin 3 → Run α}
    (h : ∀ i j, ThrowsNothing (f i j)) : ThrowsNothing (gridM f) := by
  have hrow : ∀ i, ThrowsNothing (do return ![← f i 0, ← f i 1, ← f i 2] : Run (Fin 3 → α)) := by
    intro i
    exact (h i 0).bind fun _ _ => (h i 1).bind fun _ _ => (h i 2).bind fun _ _ =>
      ThrowsNothing.ok _
  exact (hrow 0).bind fun _ _ => (hrow 1).bind fun _ _ => (hrow 2).bind fun _ _ =>
    ThrowsNothing.ok _

/-- The lower cell at an index: what `buildLowerLevel` does with its edges. -/
theorem dividedAgain_eq {cell : List Int × Box} {idx : Fin 3 × Fin 3} {x : List Int × Box} :
    dividedAgain I c cell idx = some x ↔
      GridCell.EDGE_THRESHOLD ≤ x.1.length ∧ x.2 = (GridParent.new cell.2).lowerBox idx.1 idx.2 ∧
        x.1 = edgesIn I c x.2 cell.1 := by
  obtain ⟨edges, b⟩ := x
  rw [dividedAgain]
  split_ifs with hmany
  · constructor
    · intro h
      obtain ⟨rfl, rfl⟩ := Prod.mk.inj (Option.some.inj h)
      exact ⟨hmany, rfl, rfl⟩
    · intro h
      obtain ⟨_, hb, hedges⟩ := h
      simp only at hb hedges
      subst hb
      subst hedges
      rfl
  · constructor
    · intro h
      cases h
    · intro h
      obtain ⟨hlen, hb, hedges⟩ := h
      simp only at hlen hb hedges
      subst hb
      subst hedges
      exact absurd hlen hmany

/-- A leaf of the lower level, before its center point is set. -/
def newLeaf (edgeIds : List Int) (b : Box) : GridCell :=
  .leaf {
    edgeIds
    centerPointInWater := false
    latCenterPoint := (b.southernLatitude + b.northernLatitude) / 2
    lonCenterPoint := (b.westernLongitude + b.easternLongitude) / 2 }

/-- A cell of the lower level; `divide` is `buildLowerLevel` for its own lower cells. -/
def lowerCell (I : IntersectionHelper) (c : CoastlineWays ℚ) (entryOrder : List Int → List Int)
    (divide : List Int → Box → Run GridCell) (edgeIDs : List Int) (b : Box) : Run GridCell := do
  let edgesInCell ← (entryOrder edgeIDs).foldlM (addEdgeInCell I c b) []
  if GridCell.EDGE_THRESHOLD ≤ edgesInCell.length then divide edgesInCell b
  else return newLeaf (entryOrder edgesInCell) b

theorem buildLowerLevel_succ (fuel : Nat) (edgeIDs : List Int) :
    buildLowerLevel I c entryOrder (fuel + 1) edgeIDs b = do
      let lowerLevelCells ← gridM fun i j =>
        lowerCell I c entryOrder (buildLowerLevel I c entryOrder fuel) edgeIDs
          ((GridParent.new b).lowerBox i j)
      return .parent (GridParent.new b) lowerLevelCells := rfl

/-- Either the cell is divided again, or it is a leaf with its edges. -/
theorem lowerCell_spec (horder : ∀ l, (entryOrder l).Perm l) {edgeIDs ids : List Int}
    (hids : GridCell.AllEdges c ids) (hnodup : ids.Nodup) (hperm : edgeIDs.Perm ids) :
    (∃ edgesInCell, edgesInCell.Perm (edgesIn I c b ids) ∧
      GridCell.EDGE_THRESHOLD ≤ (edgesIn I c b ids).length ∧
      ∀ divide, lowerCell I c entryOrder divide edgeIDs b = divide edgesInCell b) ∨
    ∃ leaf, GridCell.AllEdges c leaf.getAllContainedEdgeIDs ∧
      (edgesIn I c b ids).length < GridCell.EDGE_THRESHOLD ∧
      ∀ divide, lowerCell I c entryOrder divide edgeIDs b = .ok leaf := by
  obtain ⟨edgesInCell, hfold, hp⟩ := foldlM_entryOrder (I := I) (b := b) horder hids hnodup hperm
  by_cases hmany : GridCell.EDGE_THRESHOLD ≤ edgesInCell.length
  · left
    refine ⟨edgesInCell, hp, hp.length_eq ▸ hmany, ?_⟩
    intro divide
    rw [lowerCell, hfold, ok_bind, if_pos hmany]
  · right
    refine ⟨newLeaf (entryOrder edgesInCell) b, ?_, hp.length_eq ▸ not_le.mp hmany, ?_⟩
    · intro e he
      have he : e ∈ entryOrder edgesInCell := List.mem_dedup.mp he
      exact hids e ((edgesIn_sublist ids).subset
        (hp.mem_iff.mp ((horder edgesInCell).mem_iff.mp he)))
    · intro divide
      rw [lowerCell, hfold, ok_bind, if_neg hmany]
      rfl

theorem buildLowerLevel_returns (horder : ∀ l, (entryOrder l).Perm l) :
    ∀ (n : Nat) (edgeIDs ids : List Int) (b : Box), GridCell.AllEdges c ids → ids.Nodup →
      edgeIDs.Perm ids → Shallow (dividedAgain I c) n (ids, b) →
      ∃ cell, GridCell.AllEdges c cell.getAllContainedEdgeIDs ∧
        ∀ fuel, n ≤ fuel → buildLowerLevel I c entryOrder fuel edgeIDs b = .ok cell := by
  intro n
  induction n with
  | zero =>
    intro _ _ _ _ _ _ h
    exact absurd h id
  | succ n ih =>
    intro edgeIDs ids b hids hnodup hperm hshallow
    have hcell : ∀ i j, ∃ cell, GridCell.AllEdges c cell.getAllContainedEdgeIDs ∧
        ∀ fuel, n ≤ fuel → lowerCell I c entryOrder (buildLowerLevel I c entryOrder fuel) edgeIDs
          ((GridParent.new b).lowerBox i j) = .ok cell := by
      intro i j
      rcases lowerCell_spec (I := I) (b := (GridParent.new b).lowerBox i j) horder hids hnodup
        hperm with ⟨edgesInCell, hp, hmany, hrun⟩ | ⟨leaf, hleaf, _, hrun⟩
      · have hsub := edgesIn_sublist (I := I) (c := c) (b := (GridParent.new b).lowerBox i j) ids
        obtain ⟨cell, hedges, hbuild⟩ := ih edgesInCell _ ((GridParent.new b).lowerBox i j)
          (fun e he => hids e (hsub.subset he)) (hnodup.sublist hsub) hp
          (hshallow (i, j) _ (dividedAgain_eq.mpr ⟨hmany, rfl, rfl⟩))
        exact ⟨cell, hedges, fun fuel hfuel => (hrun _).trans (hbuild fuel hfuel)⟩
      · exact ⟨leaf, hleaf, fun fuel _ => hrun _⟩
    choose cell hedges hbuild using hcell
    obtain ⟨cells, _, hcells⟩ := gridM_of_ok (f := fun i j => .ok (cell i j)) (g := cell)
      fun _ _ => rfl
    refine ⟨.parent (GridParent.new b) cells, ?_, ?_⟩
    · intro e he
      obtain ⟨i, j, he⟩ := GridCell.mem_getAllContainedEdgeIDs.mp he
      rw [hcells] at he
      exact hedges i j e he
    · intro fuel hfuel
      obtain ⟨fuel, rfl⟩ : ∃ k, fuel = k + 1 := ⟨fuel - 1, by omega⟩
      obtain ⟨cells', hrun, hcells'⟩ := gridM_of_ok (fun i j => hbuild i j fuel (by omega))
      have heq : cells' = cells := by
        funext i j
        rw [hcells', hcells]
      rw [buildLowerLevel_succ, hrun, ok_bind, heq]
      rfl

/-- A tree is not deeper than the fuel that was used for it. -/
theorem shallow_of_buildLowerLevel (horder : ∀ l, (entryOrder l).Perm l) :
    ∀ (fuel : Nat) (edgeIDs ids : List Int) (b : Box) (cell : GridCell), GridCell.AllEdges c ids →
      ids.Nodup → edgeIDs.Perm ids → buildLowerLevel I c entryOrder fuel edgeIDs b = .ok cell →
      Shallow (dividedAgain I c) fuel (ids, b) := by
  intro fuel
  induction fuel with
  | zero =>
    intro _ _ _ _ _ _ _ hrun
    cases hrun
  | succ fuel ih =>
    intro edgeIDs ids b cell hids hnodup hperm hrun idx x hx
    obtain ⟨hmany, hb, hedges⟩ := dividedAgain_eq.mp hx
    rw [buildLowerLevel_succ, bind_eq_ok] at hrun
    obtain ⟨cells, hcells, _⟩ := hrun
    have hcell := gridM_eq_ok hcells idx.1 idx.2
    rw [← hb] at hcell
    rcases lowerCell_spec (I := I) (b := x.2) horder hids hnodup hperm with
      ⟨edgesInCell, hp, _, hlower⟩ | ⟨leaf, _, hfew, _⟩
    · have hsub := edgesIn_sublist (I := I) (c := c) (b := x.2) ids
      rw [hlower] at hcell
      rw [← hedges] at hp hsub
      exact ih edgesInCell x.1 x.2 _ (fun e he => hids e (hsub.subset he)) (hnodup.sublist hsub) hp
        hcell
    · rw [← hedges] at hfew
      omega

theorem buildLowerLevel_throwsNothing (horder : ∀ l, (entryOrder l).Perm l) :
    ∀ (fuel : Nat) (edgeIDs ids : List Int) (b : Box), GridCell.AllEdges c ids → ids.Nodup →
      edgeIDs.Perm ids → ThrowsNothing (buildLowerLevel I c entryOrder fuel edgeIDs b) := by
  intro fuel
  induction fuel with
  | zero =>
    intro edgeIDs ids b _ _ _ e he
    rw [buildLowerLevel] at he
    exact (Except.error.inj he).symm
  | succ fuel ih =>
    intro edgeIDs ids b hids hnodup hperm
    rw [buildLowerLevel_succ]
    refine (gridM_throwsNothing ?_).bind fun _ _ => ThrowsNothing.ok _
    intro i j
    rcases lowerCell_spec (I := I) (b := (GridParent.new b).lowerBox i j) horder hids hnodup
      hperm with ⟨edgesInCell, hp, _, hrun⟩ | ⟨leaf, _, _, hrun⟩
    · have hsub := edgesIn_sublist (I := I) (c := c) (b := (GridParent.new b).lowerBox i j) ids
      rw [hrun]
      exact ih edgesInCell _ _ (fun e he => hids e (hsub.subset he)) (hnodup.sublist hsub) hp
    · exact ThrowsNothing.of_eq_ok (hrun _)

/-! ## Infinite trees -/

/-- A path on which the cells are divided again for ever. -/
theorem descend_of_chain {ids : List Int} {f : Nat → List Int × Box} {path : Nat → Fin 3 × Fin 3}
    (h0 : f 0 = (ids, b)) (hf : ∀ n, dividedAgain I c (f n) (path n) = some (f (n + 1))) (n : Nat) :
    (f n).2 = b.descend path n := by
  induction n with
  | zero => rw [h0, Box.descend]
  | succ n ih => rw [(dividedAgain_eq.mp (hf n)).2.1, ih, Box.descend]

/-- The edges on such a path become fewer, and from some cell on they stay the same. -/
theorem overfull_of_chain {ids : List Int} {f : Nat → List Int × Box}
    {path : Nat → Fin 3 × Fin 3} (hids : ∀ e ∈ ids, isEdgeInCell I c b e = .ok true)
    (hnodup : ids.Nodup) (h0 : f 0 = (ids, b))
    (hf : ∀ n, dividedAgain I c (f n) (path n) = some (f (n + 1))) : Overfull I c b := by
  have hsub : ∀ n m, n ≤ m → ((f m).1).Sublist (f n).1 := by
    intro n m hnm
    induction hnm with
    | refl => exact List.Sublist.refl _
    | step _ ih =>
      refine List.Sublist.trans ?_ ih
      rw [(dividedAgain_eq.mp (hf _)).2.2]
      exact edgesIn_sublist _
  have hin : ∀ n, ∀ e ∈ (f n).1, isEdgeInCell I c (b.descend path n) e = .ok true := by
    intro n e he
    cases n with
    | zero =>
      rw [h0] at he
      exact hids e he
    | succ n =>
      rw [(dividedAgain_eq.mp (hf n)).2.2, mem_edgesIn, descend_of_chain h0 hf] at he
      exact he.2
  -- a cell with the fewest edges
  obtain ⟨m, hm⟩ : ∃ m, ∀ n, (f m).1.length ≤ (f n).1.length := by
    obtain ⟨_, ⟨m, rfl⟩, hmin⟩ := WellFounded.has_min (r := fun a b : Nat => a < b) Nat.lt_wfRel.wf
      (Set.range fun n => (f n).1.length) ⟨_, 0, rfl⟩
    exact ⟨m, fun n => not_lt.mp (hmin _ ⟨n, rfl⟩)⟩
  refine ⟨path, (f m).1.toFinset, ?_, ?_⟩
  · have hnodup' : (f m).1.Nodup := by
      have hall := hsub 0 m (Nat.zero_le m)
      rw [h0] at hall
      exact hnodup.sublist hall
    rw [List.toFinset_card_of_nodup hnodup']
    exact le_trans (dividedAgain_eq.mp (hf m)).1 (hsub m (m + 1) (Nat.le_succ m)).length_le
  · intro e he n
    rw [List.mem_toFinset] at he
    rcases Nat.le_total n m with hnm | hmn
    · exact hin n e ((hsub n m hnm).subset he)
    · rw [← (hsub m n hmn).eq_of_length_le (hm n)] at he
      exact hin n e he

/-- The edges of the cells on a path. -/
def edgesOnPath (I : IntersectionHelper) (c : CoastlineWays ℚ) (b : Box)
    (path : Nat → Fin 3 × Fin 3) (ids : List Int) : Nat → List Int
  | 0 => ids
  | n + 1 => edgesIn I c (b.descend path (n + 1)) (edgesOnPath I c b path ids n)

theorem chain_of_overfull {ids : List Int}
    (hids : ∀ e, isEdgeInCell I c b e = .ok true → e ∈ ids) (h : Overfull I c b) :
    ∃ f : Nat → List Int × Box, f 0 = (ids, b) ∧
      ∀ n, ∃ idx, dividedAgain I c (f n) idx = some (f (n + 1)) := by
  obtain ⟨path, edges, hcard, hin⟩ := h
  have hmem : ∀ n, ∀ e ∈ edges, e ∈ edgesOnPath I c b path ids n := by
    intro n
    induction n with
    | zero => exact fun e he => hids e (hin e he 0)
    | succ n ih => exact fun e he => mem_edgesIn.mpr ⟨ih e he, hin e he (n + 1)⟩
  refine ⟨fun n => (edgesOnPath I c b path ids n, b.descend path n), rfl, ?_⟩
  intro n
  refine ⟨path n, dividedAgain_eq.mpr ⟨?_, rfl, rfl⟩⟩
  calc GridCell.EDGE_THRESHOLD ≤ edges.card := hcard
    _ ≤ (edgesOnPath I c b path ids (n + 1)).toFinset.card :=
      Finset.card_le_card fun e he => List.mem_toFinset.mpr (hmem (n + 1) e he)
    _ ≤ (edgesOnPath I c b path ids (n + 1)).length := List.toFinset_card_le _

/-- The tree below a cell is infinite exactly when the cell is overfull. -/
theorem exists_shallow_iff_overfull {ids : List Int} (hnodup : ids.Nodup)
    (hids : ∀ e, e ∈ ids ↔ isEdgeInCell I c b e = .ok true) :
    (∃ n, Shallow (dividedAgain I c) n (ids, b)) ↔ ¬ Overfull I c b := by
  rw [exists_shallow_iff, not_iff_not]
  constructor
  · intro h
    obtain ⟨f, h0, hf⟩ := h
    choose path hpath using hf
    exact overfull_of_chain (fun e he => (hids e).mp he) hnodup h0 hpath
  · exact chain_of_overfull fun e he => (hids e).mpr he

/-! ## Edges that meet in one point -/

/-- The cells on the way down to a point. -/
def Box.descendTo (b : Box) (lat lon : ℚ) : Nat → Box
  | 0 => b
  | n + 1 =>
    let p := GridParent.new (b.descendTo lat lon n)
    p.lowerBox (innerIdx p.innerLatBorders lat) (innerIdx p.innerLonBorders lon)

/-- The indices of these cells. -/
def Box.pathTo (b : Box) (lat lon : ℚ) (n : Nat) : Fin 3 × Fin 3 :=
  let p := GridParent.new (b.descendTo lat lon n)
  (innerIdx p.innerLatBorders lat, innerIdx p.innerLonBorders lon)

theorem descend_pathTo (b : Box) (lat lon : ℚ) (n : Nat) :
    b.descend (b.pathTo lat lon) n = b.descendTo lat lon n := by
  induction n with
  | zero => rfl
  | succ n ih => rw [Box.descend, ih, Box.descendTo, Box.pathTo]

theorem descendTo_contains {lat lon : ℚ} (h : b.Contains lat lon) (n : Nat) :
    (b.descendTo lat lon n).Contains lat lon := by
  induction n with
  | zero => exact h
  | succ n ih => exact ⟨innerIdx_contains ih.1.1 ih.1.2, innerIdx_contains ih.2.1 ih.2.2⟩

/-- A cell is overfull when `EDGE_THRESHOLD` edges begin or end at one of its points. -/
theorem overfull_of_meet {lat lon : ℚ} (hin : b.Contains lat lon) {edges : Finset Int}
    (hcard : GridCell.EDGE_THRESHOLD ≤ edges.card) (hedges : ∀ e ∈ edges, c.IsEdge e ∧
      HasEnd c { southernLatitude := lat, northernLatitude := lat, westernLongitude := lon
                 easternLongitude := lon } e) : Overfull I c b := by
  refine ⟨b.pathTo lat lon, edges, hcard, ?_⟩
  intro e he n
  obtain ⟨hedge, hend⟩ := hedges e he
  obtain ⟨r, hr⟩ := isEdgeInCell_returns (I := I) (b := b.descendTo lat lon n) hedge
  have hmono : HasEnd c (b.descendTo lat lon n) e := by
    apply hend.mono
    intro lat' lon' h
    obtain rfl : lat' = lat := le_antisymm h.1.2 h.1.1
    obtain rfl : lon' = lon := le_antisymm h.2.2 h.2.1
    exact descendTo_contains hin n
  rw [descend_pathTo, hr, isEdgeInCell_of_hasEnd hmono hr]

end subdivision

end SeaRouter
