import SeaRouter.CoastlineGrid.PointInWaterChecker
import SeaRouter.CoastlineGrid.Subdivision

/-!
# `coastlinegrid/PointInWaterChecker.java`: when the constructor ends

The constructor builds the trees of all cells of the top level before it sets a center
point.  Nothing but an infinite tree can keep it from returning.

* `createGrid_returns`, `createGrid_outOfFuel`: the trees.
* `setFirstCell_ends`, `initBottomCell_ends`, `initColumn_ends`: the center points.
* `create_ends`: the constructor never ends when a cell of the top level is overfull.
  Otherwise it returns, and then `pointInWater` answers for every point.
-/

namespace SeaRouter

open Java

namespace PointInWaterChecker

section constructor

variable {I : IntersectionHelper} {c : CoastlineWays ℚ} {entryOrder : List Int → List Int}
  {fuel : Nat} {grid : List (List GridCell)}

/-! ## The cells of the top level -/

/-- `createCell`, when the edges of the cell are picked. -/
theorem createCell_eq (hc : GridCell.AllEdges c (allIds c)) (latIdx lonIdx : Int) :
    createCell I c entryOrder fuel latIdx lonIdx
      = buildLowerLevel I c entryOrder fuel
          (edgesIn I c (topBox latIdx lonIdx) (allIds c)).reverse (topBox latIdx lonIdx) := by
  show (allIds c).foldlM (addEdgeInCell I c (topBox latIdx lonIdx)) [] >>= _ = _
  rw [foldlM_addEdgeInCell hc nodup_allIds, ok_bind]

theorem exists_shallow_iff_top (latIdx lonIdx : Int) :
    (∃ n, Shallow (dividedAgain I c) n
      (edgesIn I c (topBox latIdx lonIdx) (allIds c), topBox latIdx lonIdx)) ↔
      ¬ Overfull I c (topBox latIdx lonIdx) := by
  apply exists_shallow_iff_overfull (nodup_allIds.sublist (edgesIn_sublist _))
  intro e
  rw [mem_edgesIn]
  constructor
  · intro h
    exact h.2
  · intro h
    exact ⟨mem_allIds_of_isEdgeInCell h, h⟩

theorem createCell_returns (horder : ∀ l, (entryOrder l).Perm l)
    (hc : GridCell.AllEdges c (allIds c)) {latIdx lonIdx : Int}
    (h : ¬ Overfull I c (topBox latIdx lonIdx)) :
    ∃ cell, Ends (fun fuel => createCell I c entryOrder fuel latIdx lonIdx) cell := by
  obtain ⟨n, hn⟩ := (exists_shallow_iff_top latIdx lonIdx).mpr h
  have hsub := edgesIn_sublist (I := I) (c := c) (b := topBox latIdx lonIdx) (allIds c)
  obtain ⟨cell, _, hbuild⟩ := buildLowerLevel_returns horder n _ _ _
    (fun e he => hc e (hsub.subset he)) (nodup_allIds.sublist hsub) (List.reverse_perm _) hn
  refine ⟨cell, n, ?_⟩
  intro fuel hfuel
  show createCell I c entryOrder fuel latIdx lonIdx = _
  rw [createCell_eq hc]
  exact hbuild fuel hfuel

theorem createCell_inv (horder : ∀ l, (entryOrder l).Perm l)
    (hc : GridCell.AllEdges c (allIds c)) {latIdx lonIdx : Int} {cell : GridCell}
    (hrun : createCell I c entryOrder fuel latIdx lonIdx = .ok cell) :
    ¬ Overfull I c (topBox latIdx lonIdx) ∧ GridCell.AllEdges c cell.getAllContainedEdgeIDs := by
  have hsub := edgesIn_sublist (I := I) (c := c) (b := topBox latIdx lonIdx) (allIds c)
  have hids : GridCell.AllEdges c (edgesIn I c (topBox latIdx lonIdx) (allIds c)) :=
    fun e he => hc e (hsub.subset he)
  have hnodup := nodup_allIds.sublist hsub
  rw [createCell_eq hc] at hrun
  have hshallow := shallow_of_buildLowerLevel horder fuel _ _ _ cell hids hnodup
    (List.reverse_perm _) hrun
  refine ⟨(exists_shallow_iff_top latIdx lonIdx).mp ⟨fuel, hshallow⟩, ?_⟩
  obtain ⟨cell', hcell', hbuild⟩ := buildLowerLevel_returns horder fuel _ _ _ hids hnodup
    (List.reverse_perm _) hshallow
  rw [hbuild fuel (le_refl fuel), Except.ok.injEq] at hrun
  rw [← hrun]
  exact hcell'

theorem createCell_throwsNothing (horder : ∀ l, (entryOrder l).Perm l)
    (hc : GridCell.AllEdges c (allIds c)) (latIdx lonIdx : Int) :
    ThrowsNothing (createCell I c entryOrder fuel latIdx lonIdx) := by
  have hsub := edgesIn_sublist (I := I) (c := c) (b := topBox latIdx lonIdx) (allIds c)
  rw [createCell_eq hc]
  exact buildLowerLevel_throwsNothing horder fuel _ _ _ (fun e he => hc e (hsub.subset he))
    (nodup_allIds.sublist hsub) (List.reverse_perm _)

/-- The indices of a cell of the top level. -/
def IsTop (latIdx lonIdx : Int) : Prop := (0 ≤ latIdx ∧ latIdx < 18) ∧ 0 ≤ lonIdx ∧ lonIdx < 36

/-- The grid has all its cells, and the ids in them are edges. -/
structure HasCells (c : CoastlineWays ℚ) (grid : List (List GridCell)) : Prop where
  cells : ∀ i j, IsTop i j → ∃ cell, cellAt grid i j = .ok cell
  edges : ∀ i j cell, cellAt grid i j = .ok cell → GridCell.AllEdges c cell.getAllContainedEdgeIDs

theorem cellAt_of_createGrid (h : createGrid I c entryOrder fuel = .ok grid) :
    (∀ i j, IsTop i j → ∃ cell, cellAt grid i j = .ok cell) ∧
      ∀ i j cell, cellAt grid i j = .ok cell → createCell I c entryOrder fuel i j = .ok cell := by
  have hall : AllCells (fun i j cell => createCell I c entryOrder fuel i j = .ok cell) grid :=
    createGrid_keeps (fun _ _ _ hcell => hcell) h
  constructor
  · intro i j htop
    exact hall.cells i j htop.1.1 htop.1.2 htop.2.1 htop.2.2
  · exact hall.holds

theorem createGrid_returns (horder : ∀ l, (entryOrder l).Perm l)
    (hc : GridCell.AllEdges c (allIds c))
    (h : ∀ i j, IsTop i j → ¬ Overfull I c (topBox i j)) :
    ∃ grid, HasCells c grid ∧ Ends (createGrid I c entryOrder) grid := by
  obtain ⟨grid, hgrid⟩ : ∃ grid, Ends (createGrid I c entryOrder) grid := by
    apply Ends.mapM
    intro i hi
    apply Ends.mapM
    intro j hj
    exact createCell_returns horder hc (h i j ⟨mem_indices.mp hi, mem_indices.mp hj⟩)
  refine ⟨grid, ?_, hgrid⟩
  obtain ⟨F, hF⟩ := hgrid
  obtain ⟨hcells, hread⟩ := cellAt_of_createGrid (hF F (le_refl F))
  exact ⟨hcells, fun i j cell hat => (createCell_inv horder hc (hread i j cell hat)).2⟩

theorem createGrid_outOfFuel (horder : ∀ l, (entryOrder l).Perm l)
    (hc : GridCell.AllEdges c (allIds c)) {i j : Int} (htop : IsTop i j)
    (h : Overfull I c (topBox i j)) (fuel : Nat) :
    createGrid I c entryOrder fuel = .error .outOfFuel := by
  have hquiet : ThrowsNothing (createGrid I c entryOrder fuel) :=
    ThrowsNothing.mapM _ fun _ _ => ThrowsNothing.mapM _ fun _ _ =>
      createCell_throwsNothing horder hc _ _
  apply hquiet.outOfFuel
  intro grid hrun
  obtain ⟨hcells, hread⟩ := cellAt_of_createGrid hrun
  obtain ⟨cell, hcell⟩ := hcells i j htop
  exact (createCell_inv horder hc (hread i j cell hcell)).1 h

/-! ## The center points -/

/-- For one order in which the sets are visited. -/
theorem returns_ends {α : Type} {run : (List Int → List Int) → Nat → Run α} {r : α}
    (horder : ∀ l, (entryOrder l).Perm l) (h : GridCell.Returns run r) :
    Ends (run entryOrder) r := by
  obtain ⟨F, hF⟩ := h
  exact ⟨F, hF entryOrder horder⟩

theorem setCenterPoint_ends (horder : ∀ l, (entryOrder l).Perm l) {cell : GridCell}
    (hcell : GridCell.AllEdges c cell.getAllContainedEdgeIDs) (lat lon : ℚ) (w : Bool) :
    ∃ cell', GridCell.AllEdges c cell'.getAllContainedEdgeIDs ∧
      Ends (fun fuel => cell.setCenterPoint I c entryOrder fuel lat lon w) cell' := by
  obtain ⟨cell', _, hreturns⟩ := (GridCell.total (I := I) cell hcell).set lat lon w
  refine ⟨cell', ?_, returns_ends horder hreturns⟩
  rw [hreturns.sameEdges.ids]
  exact hcell

/-- `initCenterPoint` of a cell ends, and neither the cell nor the set that it changes
gets an id that is no edge. -/
theorem initCenterPoint_ends (horder : ∀ l, (entryOrder l).Perm l) {cell : GridCell}
    (hcell : GridCell.AllEdges c cell.getAllContainedEdgeIDs) (lat lon : ℚ) (w : Bool)
    {ids : List Int} (hids : GridCell.AllEdges c ids) (dir : ApproachDirection) :
    ∃ r, (GridCell.AllEdges c r.1.getAllContainedEdgeIDs ∧ GridCell.AllEdges c r.2.2) ∧
      Ends (fun fuel => cell.initCenterPoint I c entryOrder fuel lat lon w ids dir) r := by
  obtain ⟨_, _, w', cell', hinits⟩ :=
    (GridCell.total (I := I) cell hcell).init lat lon w ids dir hids
  have hends := returns_ends horder hinits.returns
  refine ⟨(cell', w', cell.combinedEdgeIds ids dir),
    ⟨?_, GridCell.allEdges_combined hcell hids dir⟩, hends⟩
  obtain ⟨F, hF⟩ := hends
  rw [((GridCell.centerPoint_keeps cell).2 _ _ _ _ _ _ (hF F (le_refl F))).ids]
  exact hcell

/-- A cell of the grid is replaced. -/
theorem HasCells.setCell (h : HasCells c grid) {i j : Int} (htop : IsTop i j) {cell : GridCell}
    (hcell : GridCell.AllEdges c cell.getAllContainedEdgeIDs) :
    ∃ grid', setCell grid i j cell = .ok grid' ∧ HasCells c grid' := by
  obtain ⟨old, hold⟩ := h.cells i j htop
  rw [cellAt, bind_eq_ok] at hold
  obtain ⟨row, hrow, hold⟩ := hold
  have hset : PointInWaterChecker.setCell grid i j cell
      = .ok (grid.set i.toNat (row.set j.toNat cell)) := by
    rw [PointInWaterChecker.setCell, hrow, ok_bind,
      wr_of_bounds cell (rd_bounds hold).1 (rd_bounds hold).2, ok_bind,
      wr_of_bounds _ (rd_bounds hrow).1 (rd_bounds hrow).2]
  refine ⟨_, hset, ?_, ?_⟩
  · intro i' j' htop'
    rw [cellAt_setCell hset]
    split_ifs
    · exact ⟨cell, rfl⟩
    · exact h.cells i' j' htop'
  · intro i' j' cell' hat
    rw [cellAt_setCell hset] at hat
    split_ifs at hat
    · rw [← Except.ok.inj hat]
      exact hcell
    · exact h.edges i' j' cell' hat

theorem exists_wr {α : Type} {a : List α} {i : Int} (x : α) (h0 : 0 ≤ i) (h1 : i < a.length) :
    ∃ b, wr a i x = .ok b := ⟨_, wr_of_bounds x h0 h1⟩

/-- The variables of the loop over the bottom row. -/
structure BottomRow.Sound (c : CoastlineWays ℚ) (s : BottomRow) : Prop where
  grid : HasCells c s.grid
  flags : s.firstCenterPointInWater.length = 36
  sets : s.firstAdditionalEdges.length = 36
  edges : ∀ i ids, rd s.firstAdditionalEdges i = .ok ids → GridCell.AllEdges c ids

theorem wr_edges {sets sets' : List (List Int)} {i : Int} {ids : List Int}
    (h : ∀ i ids, rd sets i = .ok ids → GridCell.AllEdges c ids) (hids : GridCell.AllEdges c ids)
    (hwr : wr sets i ids = .ok sets') :
    ∀ i ids, rd sets' i = .ok ids → GridCell.AllEdges c ids := by
  intro i' ids' hrd
  rw [rd_of_wr hwr] at hrd
  split_ifs at hrd
  · rw [← Except.ok.inj hrd]
    exact hids
  · exact h i' ids' hrd

theorem setFirstCell_ends (horder : ∀ l, (entryOrder l).Perm l) (h : HasCells c grid) (w : Bool) :
    ∃ row, row.Sound c ∧ Ends (fun fuel => setFirstCell I c entryOrder fuel grid w) row := by
  obtain ⟨old, hold⟩ := h.cells 0 0 (by simp [IsTop])
  obtain ⟨cell, hcell, F, hF⟩ := setCenterPoint_ends (I := I) horder (h.edges 0 0 old hold)
    (-85) (-175) w
  obtain ⟨grid', hset, hgrid'⟩ := h.setCell (i := 0) (j := 0) (by simp [IsTop]) hcell
  obtain ⟨flags, hflags⟩ := exists_wr (a := List.replicate 36 false) (i := 0) w (by omega) (by simp)
  obtain ⟨sets, hsets⟩ := exists_wr (a := List.replicate 36 ([] : List Int)) (i := 0)
    cell.getAllContainedEdgeIDs (by omega) (by simp)
  refine ⟨⟨grid', flags, sets⟩, ⟨hgrid', ?_, ?_, ?_⟩, F, ?_⟩
  · exact (length_of_wr hflags).trans (by simp)
  · exact (length_of_wr hsets).trans (by simp)
  · apply wr_edges _ hcell hsets
    intro i ids hrd e he
    rw [List.eq_of_mem_replicate (mem_of_rd hrd)] at he
    cases he
  · intro fuel hfuel
    show setFirstCell I c entryOrder fuel grid w = _
    have hrun : old.setCenterPoint I c entryOrder fuel (-85) (-175) w = .ok cell := hF fuel hfuel
    rw [setFirstCell, hold, ok_bind, rd_centerPointLat, ok_bind, rd_centerPointLon, ok_bind, hrun,
      ok_bind, hset, ok_bind, hflags, ok_bind, hsets, ok_bind]
    rfl

theorem length_centerPointLat : centerPointLat.length = 18 := by decide

theorem length_centerPointLon : centerPointLon.length = 36 := by decide

theorem initBottomCell_ends (horder : ∀ l, (entryOrder l).Perm l) {s : BottomRow}
    (h : s.Sound c) {lonIdx : Int} (hidx : 1 ≤ lonIdx ∧ lonIdx < 36) :
    ∃ s', Ends (fun fuel => initBottomCell I c entryOrder fuel s lonIdx) s' ∧ s'.Sound c := by
  have htop : IsTop 0 lonIdx := ⟨by omega, by omega, hidx.2⟩
  obtain ⟨old, hold⟩ := h.grid.cells 0 lonIdx htop
  obtain ⟨lat, hlat⟩ := exists_rd (a := centerPointLat) (i := 0) (by omega)
    (by rw [length_centerPointLat]; omega)
  obtain ⟨lon, hlon⟩ := exists_rd (a := centerPointLon) (i := lonIdx - 1) (by omega)
    (by rw [length_centerPointLon]; omega)
  obtain ⟨w, hw⟩ := exists_rd (a := s.firstCenterPointInWater) (i := lonIdx - 1) (by omega)
    (by rw [h.flags]; omega)
  obtain ⟨ids, hids⟩ := exists_rd (a := s.firstAdditionalEdges) (i := lonIdx - 1) (by omega)
    (by rw [h.sets]; omega)
  obtain ⟨r, ⟨hcell, hedges⟩, F, hF⟩ := initCenterPoint_ends (I := I) horder
    (h.grid.edges 0 lonIdx old hold) lat lon w (h.edges _ ids hids) .FROM_HORIZONTAL
  obtain ⟨sets, hsets⟩ := exists_wr (a := s.firstAdditionalEdges) (i := lonIdx - 1) r.2.2
    (by omega) (by rw [h.sets]; omega)
  obtain ⟨grid', hset, hgrid'⟩ := h.grid.setCell htop hcell
  obtain ⟨flags, hflags⟩ := exists_wr (a := s.firstCenterPointInWater) (i := lonIdx) r.2.1
    (by omega) (by rw [h.flags]; omega)
  obtain ⟨sets', hsets'⟩ := exists_wr (a := sets) (i := lonIdx) r.1.getAllContainedEdgeIDs
    (by omega) (by rw [length_of_wr hsets, h.sets]; omega)
  refine ⟨⟨grid', flags, sets'⟩, ⟨F, ?_⟩, hgrid', ?_, ?_, ?_⟩
  · intro fuel hfuel
    show initBottomCell I c entryOrder fuel s lonIdx = _
    have hrun : old.initCenterPoint I c entryOrder fuel lat lon w ids .FROM_HORIZONTAL = .ok r :=
      hF fuel hfuel
    rw [initBottomCell, hold, ok_bind, hlat, ok_bind, hlon, ok_bind, hw, ok_bind, hids, ok_bind,
      hrun, ok_bind]
    simp only [hsets, hset, hflags, hsets', ok_bind, pure_eq_ok]
  · exact (length_of_wr hflags).trans h.flags
  · exact (length_of_wr hsets').trans ((length_of_wr hsets).trans h.sets)
  · exact wr_edges (wr_edges h.edges hedges hsets) hcell hsets'

theorem initColumnCell_ends (horder : ∀ l, (entryOrder l).Perm l) {s : Column}
    (hgrid : HasCells c s.grid) (hprev : GridCell.AllEdges c s.previousEdges) {lonIdx latIdx : Int}
    (hlonIdx : 0 ≤ lonIdx ∧ lonIdx < 36) (hlatIdx : 1 ≤ latIdx ∧ latIdx < 18) :
    ∃ s', Ends (fun fuel => initColumnCell I c entryOrder fuel lonIdx s latIdx) s' ∧
      HasCells c s'.grid ∧ GridCell.AllEdges c s'.previousEdges := by
  have htop : IsTop latIdx lonIdx := ⟨by omega, hlonIdx⟩
  obtain ⟨old, hold⟩ := hgrid.cells latIdx lonIdx htop
  obtain ⟨lat, hlat⟩ := exists_rd (a := centerPointLat) (i := latIdx - 1) (by omega)
    (by rw [length_centerPointLat]; omega)
  obtain ⟨lon, hlon⟩ := exists_rd (a := centerPointLon) (i := lonIdx) (by omega)
    (by rw [length_centerPointLon]; omega)
  obtain ⟨r, ⟨hcell, _⟩, F, hF⟩ := initCenterPoint_ends (I := I) horder
    (hgrid.edges latIdx lonIdx old hold) lat lon s.previousPointInWater hprev .FROM_VERTICAL
  obtain ⟨grid', hset, hgrid'⟩ := hgrid.setCell htop hcell
  refine ⟨⟨grid', r.2.1, r.1.getAllContainedEdgeIDs⟩, ⟨F, ?_⟩, hgrid', hcell⟩
  intro fuel hfuel
  show initColumnCell I c entryOrder fuel lonIdx s latIdx = _
  have hrun : old.initCenterPoint I c entryOrder fuel lat lon s.previousPointInWater
      s.previousEdges .FROM_VERTICAL = .ok r := hF fuel hfuel
  rw [initColumnCell, hold, ok_bind, hlat, ok_bind, hlon, ok_bind, hrun, ok_bind]
  simp only [hset, ok_bind, pure_eq_ok]

theorem initColumn_ends (horder : ∀ l, (entryOrder l).Perm l) {row : BottomRow}
    (hrow : row.Sound c) (hgrid : HasCells c grid) {lonIdx : Int}
    (hidx : 0 ≤ lonIdx ∧ lonIdx < 36) :
    ∃ grid', Ends (fun fuel => initColumn I c entryOrder fuel row grid lonIdx) grid' ∧
      HasCells c grid' := by
  obtain ⟨w, hw⟩ := exists_rd (a := row.firstCenterPointInWater) (i := lonIdx) hidx.1
    (by rw [hrow.flags]; omega)
  obtain ⟨ids, hids⟩ := exists_rd (a := row.firstAdditionalEdges) (i := lonIdx) hidx.1
    (by rw [hrow.sets]; omega)
  obtain ⟨s, hrun, hs, _⟩ := Ends.foldlM
    (f := fun fuel => initColumnCell I c entryOrder fuel lonIdx)
    (P := fun _ s => HasCells c s.grid ∧ GridCell.AllEdges c s.previousEdges)
    (indices 1 18) ⟨grid, w, ids⟩ ⟨hgrid, hrow.edges _ ids hids⟩ (by
      intro pre latIdx post s hsplit hs
      have hmem : latIdx ∈ indices 1 18 := by
        rw [hsplit]
        simp
      exact initColumnCell_ends horder hs.1 hs.2 hidx (mem_indices.mp hmem))
  refine ⟨s.grid, ?_, hs⟩
  exact Ends.ok_bind hw (Ends.ok_bind hids (hrun.bind (Ends.pure _)))

theorem firstPointInWater_returns (hc : GridCell.AllEdges c (allIds c)) :
    ∃ w, firstPointInWater I c = .ok w := by
  obtain ⟨w, hrun, _⟩ := foldlM_spec (P := fun _ _ => True)
    (f := fun firstPointInWater edgeId => do
      if I.arcsIntersect (← c.getStartLatByEdgeIdx edgeId) (← c.getStartLonByEdgeIdx edgeId)
          (← c.getDestLatByEdgeIdx edgeId) (← c.getDestLonByEdgeIdx edgeId)
          INITIAL_POINT_LAT INITIAL_POINT_LON (← rd centerPointLat 0) (← rd centerPointLon 0) then
        return !firstPointInWater
      else return firstPointInWater)
    (allIds c) INITIAL_POINT_IN_WATER trivial (by
      intro pre e post w hsplit _
      have he : e ∈ allIds c := by
        rw [hsplit]
        simp
      obtain ⟨p, q, h1, h2, h3, h4⟩ := hc e he
      simp only [h1, h2, h3, h4, rd_centerPointLat, rd_centerPointLon, ok_bind]
      split_ifs
      · exact ⟨_, rfl, trivial⟩
      · exact ⟨_, rfl, trivial⟩)
  exact ⟨w, hrun⟩

/-! ## Answers -/

theorem leaf_isPointInWater_returns {l : GridLeaf} (h : GridCell.AllEdges c l.edgeIds)
    (lat lon : ℚ) : ∃ w, l.isPointInWater I c lat lon = .ok w := by
  obtain ⟨w, hrun, _⟩ := foldlM_spec (P := fun _ _ => True)
    (f := fun pointInWater idx => do
      if I.arcsIntersect lat lon l.latCenterPoint l.lonCenterPoint (← c.getStartLatByEdgeIdx idx)
          (← c.getStartLonByEdgeIdx idx) (← c.getDestLatByEdgeIdx idx)
          (← c.getDestLonByEdgeIdx idx) then return !pointInWater
      else return pointInWater)
    l.edgeIds l.centerPointInWater trivial (by
      intro pre e post w hsplit _
      have he : e ∈ l.edgeIds := by
        rw [hsplit]
        simp
      obtain ⟨p, q, h1, h2, h3, h4⟩ := h e he
      simp only [h1, h2, h3, h4, ok_bind]
      split_ifs
      · exact ⟨_, rfl, trivial⟩
      · exact ⟨_, rfl, trivial⟩)
  exact ⟨w, hrun⟩

theorem isPointInWater_returns {cell : GridCell}
    (h : GridCell.AllEdges c cell.getAllContainedEdgeIDs) (lat lon : ℚ) :
    ∃ w, cell.isPointInWater I c lat lon = .ok w := by
  induction cell with
  | leaf l => exact leaf_isPointInWater_returns (fun e he => h e (List.mem_dedup.mpr he)) lat lon
  | parent p cells ih =>
    exact ih _ _ fun e he => h e (GridCell.mem_getAllContainedEdgeIDs.mpr ⟨_, _, he⟩)

theorem pointInWater_returns {checker : PointInWaterChecker} (h : HasCells c checker.topLevelGrid)
    {lat lon : ℚ} (hlat : -90 ≤ lat ∧ lat ≤ 90) (hlon : -180 ≤ lon ∧ lon ≤ 180) :
    ∃ w, pointInWater I c checker lat lon = .ok w := by
  obtain ⟨hi, hj, _⟩ := topBox_contains hlat hlon
  obtain ⟨cell, hcell⟩ := h.cells _ _ ⟨hi, hj⟩
  obtain ⟨w, hw⟩ := isPointInWater_returns (I := I) (h.edges _ _ cell hcell) lat lon
  exact ⟨w, by rw [pointInWater, hcell, ok_bind, hw]⟩

/-- The constructor returns when no cell of the top level is overfull. -/
theorem create_returns (horder : ∀ l, (entryOrder l).Perm l)
    (hc : GridCell.AllEdges c (allIds c)) (h : ∀ i j, IsTop i j → ¬ Overfull I c (topBox i j)) :
    ∃ checker, HasCells c checker.topLevelGrid ∧ Ends (create I c entryOrder) checker := by
  obtain ⟨grid, hgrid, hrun⟩ := createGrid_returns horder hc h
  obtain ⟨w, hw⟩ := firstPointInWater_returns (I := I) hc
  obtain ⟨row, hrow, hfirst⟩ := setFirstCell_ends (I := I) horder hgrid w
  obtain ⟨row', hbottom, hrow'⟩ := Ends.foldlM
    (f := fun fuel => initBottomCell I c entryOrder fuel) (P := fun _ s => s.Sound c)
    (indices 1 36) row hrow (by
      intro pre lonIdx post s hsplit hs
      have hmem : lonIdx ∈ indices 1 36 := by
        rw [hsplit]
        simp
      exact initBottomCell_ends horder hs (mem_indices.mp hmem))
  obtain ⟨grid', hcolumns, hgrid'⟩ := Ends.foldlM
    (f := fun fuel => initColumn I c entryOrder fuel row') (P := fun _ grid => HasCells c grid)
    (indices 0 36) row'.grid hrow'.grid (by
      intro pre lonIdx post s hsplit hs
      have hmem : lonIdx ∈ indices 0 36 := by
        rw [hsplit]
        simp
      exact initColumn_ends horder hrow' hs (mem_indices.mp hmem))
  refine ⟨⟨grid'⟩, hgrid', ?_⟩
  exact hrun.bind (Ends.ok_bind hw (hfirst.bind (hbottom.bind (hcolumns.bind (Ends.pure _)))))

theorem create_outOfFuel (horder : ∀ l, (entryOrder l).Perm l)
    (hc : GridCell.AllEdges c (allIds c)) {i j : Int} (htop : IsTop i j)
    (h : Overfull I c (topBox i j)) (fuel : Nat) :
    create I c entryOrder fuel = .error .outOfFuel := by
  rw [create, createGrid_outOfFuel horder hc htop h, error_bind]

/-- When a cell of the top level is overfull the constructor never ends.  Otherwise it
returns, and then `pointInWater` answers for every point. -/
theorem create_ends (I : IntersectionHelper) (c : CoastlineWays ℚ)
    (entryOrder : List Int → List Int) (horder : ∀ l, (entryOrder l).Perm l)
    (hc : ∀ e, 0 ≤ e → e < c.getNumberOfEdges → c.IsEdge e) :
    ((∃ i j, IsTop i j ∧ Overfull I c (topBox i j)) →
      ∀ fuel, create I c entryOrder fuel = .error .outOfFuel) ∧
    ((∀ i j, IsTop i j → ¬ Overfull I c (topBox i j)) →
      ∃ checker, Ends (create I c entryOrder) checker ∧
        ∀ lat lon, -90 ≤ lat ∧ lat ≤ 90 → -180 ≤ lon ∧ lon ≤ 180 →
          ∃ w, pointInWater I c checker lat lon = .ok w) := by
  have hc' : GridCell.AllEdges c (allIds c) := by
    intro e he
    obtain ⟨h0, h1⟩ := mem_indices.mp he
    exact hc e h0 h1
  constructor
  · intro h fuel
    obtain ⟨i, j, htop, hover⟩ := h
    exact create_outOfFuel horder hc' htop hover fuel
  · intro h
    obtain ⟨checker, hcells, hends⟩ := create_returns horder hc' h
    exact ⟨checker, hends, fun lat lon hlat hlon => pointInWater_returns hcells hlat hlon⟩

/-- A list of edges that is too short for an overfull cell. -/
theorem not_overfull_of_few (h : c.getNumberOfEdges < GridCell.EDGE_THRESHOLD) (b : Box) :
    ¬ Overfull I c b := by
  intro hover
  obtain ⟨path, edges, hcard, hin⟩ := hover
  have hsub : edges ⊆ (allIds c).toFinset := by
    intro e he
    exact List.mem_toFinset.mpr (mem_allIds_of_isEdgeInCell (hin e he 0))
  have hle := le_trans (Finset.card_le_card hsub) (List.toFinset_card_le _)
  rw [allIds, length_indices_zero] at hle
  have hpos : 0 < GridCell.EDGE_THRESHOLD := by decide
  have hlt : c.getNumberOfEdges.toNat < GridCell.EDGE_THRESHOLD := by omega
  exact absurd (le_trans hcard hle) (by omega)

/-- One edge, from (1, 1) to (2, 2). -/
theorem create_ends_oneEdge :
    ∃ checker, Ends (create ⟨fun _ _ _ _ _ _ _ _ => true, fun _ _ _ _ _ _ _ => true⟩
        ⟨[0], [1, 2], [1, 2]⟩ id) checker ∧
      ∀ lat lon, -90 ≤ lat ∧ lat ≤ 90 → -180 ≤ lon ∧ lon ≤ 180 →
        ∃ w, pointInWater ⟨fun _ _ _ _ _ _ _ _ => true, fun _ _ _ _ _ _ _ => true⟩
          ⟨[0], [1, 2], [1, 2]⟩ checker lat lon = .ok w := by
  have hcount : (⟨[0], [1, 2], [1, 2]⟩ : CoastlineWays ℚ).getNumberOfEdges = 1 := rfl
  apply (create_ends _ _ id (fun l => List.Perm.refl l) ?_).2
  · intro i j _
    exact not_overfull_of_few (by rw [hcount]; decide) _
  · intro e h0 h1
    obtain rfl : e = 0 := by
      rw [hcount] at h1
      omega
    exact ⟨⟨1, 1⟩, ⟨2, 2⟩, rfl, rfl, rfl, rfl⟩

/-- The constructor never ends when `EDGE_THRESHOLD` edges begin or end at one point. -/
theorem create_outOfFuel_of_meet (horder : ∀ l, (entryOrder l).Perm l)
    (hc : GridCell.AllEdges c (allIds c)) {lat lon : ℚ} (hlat : -90 ≤ lat ∧ lat ≤ 90)
    (hlon : -180 ≤ lon ∧ lon ≤ 180) {edges : Finset Int}
    (hcard : GridCell.EDGE_THRESHOLD ≤ edges.card)
    (hedges : ∀ e ∈ edges, e ∈ allIds c ∧
      HasEnd c { southernLatitude := lat, northernLatitude := lat, westernLongitude := lon
                 easternLongitude := lon } e) (fuel : Nat) :
    create I c entryOrder fuel = .error .outOfFuel := by
  obtain ⟨hi, hj, hin⟩ := topBox_contains hlat hlon
  have hover : Overfull I c (topBox (latIndex lat) (lonIndex lon)) :=
    overfull_of_meet hin hcard fun e he => ⟨hc e (hedges e he).1, (hedges e he).2⟩
  exact create_outOfFuel horder hc ⟨hi, hj⟩ hover fuel

end constructor

end PointInWaterChecker

end SeaRouter
