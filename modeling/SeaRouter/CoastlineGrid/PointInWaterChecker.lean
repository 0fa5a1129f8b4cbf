import SeaRouter.CoastlineGrid.CenterPoint

/-!
# `coastlinegrid/PointInWaterChecker.java`

The earth is divided into 18 x 36 cells of ten degrees, each of which is the root of
a tree of cells.  The constructor builds the trees and then sets the center points:
it begins with the first cell, goes along the bottom row and then up each of the
columns.  `pointInWater` picks one of the cells by its coordinates and asks it.

* `topBox_contains`: the cell that is picked contains the point.
* `create_keeps`: what is true of new cells and is kept when the center points are
  set, is true of the cells after the constructor.
* `create_covers`: after the constructor each leaf of each tree has the edges that
  begin or end in it; the center points do not change the edges.
* `pointInWater_spec`: the leaf that answers contains the point and has all the
  edges that begin or end in it.
-/

namespace SeaRouter

open Java

/-- The conversion to `int`: the fraction is dropped. -/
def toInt (x : ℚ) : Int := x.num.tdiv x.den

/-- `x % y` of two numbers that are not integers. -/
def floatMod (x y : ℚ) : ℚ := x - y * toInt (x / y)

/-- `topLevelGrid`, by latitude and by longitude. -/
structure PointInWaterChecker where
  topLevelGrid : List (List GridCell)

namespace PointInWaterChecker

def INITIAL_POINT_LAT : ℚ := -83

def INITIAL_POINT_LON : ℚ := -170

def INITIAL_POINT_IN_WATER : Bool := false

/-- The boundaries of a cell of the top level. -/
def topBox (latIdx lonIdx : Int) : Box where
  southernLatitude := 10 * (latIdx - 9)
  northernLatitude := 10 * (latIdx - 9) + 10
  westernLongitude := 10 * (lonIdx - 18)
  easternLongitude := 10 * (lonIdx - 18) + 10

/-- `centerPointLat`. -/
def centerPointLat : List ℚ := (indices 0 18).map fun i => -85 + 10 * i

/-- `centerPointLon`. -/
def centerPointLon : List ℚ := (indices 0 36).map fun i => -175 + 10 * i

/-- The read `topLevelGrid[latIdx][lonIdx]`. -/
def cellAt (grid : List (List GridCell)) (latIdx lonIdx : Int) : Run GridCell := do
  rd (← rd grid latIdx) lonIdx

/-- The cell at `[latIdx][lonIdx]` is changed. -/
def setCell (grid : List (List GridCell)) (latIdx lonIdx : Int) (cell : GridCell) :
    Run (List (List GridCell)) := do
  wr grid latIdx (← wr (← rd grid latIdx) lonIdx cell)

section constructor

variable (I : IntersectionHelper) (c : CoastlineWays ℚ) (entryOrder : List Int → List Int)
  (fuel : Nat)

/-- A cell of the top level, with the cells below it. -/
def createCell (latIdx lonIdx : Int) : Run GridCell := do
  let b := topBox latIdx lonIdx
  let edgesInCell ← (indices 0 c.getNumberOfEdges).foldlM (addEdgeInCell I c b) []
  buildLowerLevel I c entryOrder fuel edgesInCell b

def createGrid : Run (List (List GridCell)) :=
  (indices 0 18).mapM fun latIdx => (indices 0 36).mapM fun lonIdx =>
    createCell I c entryOrder fuel latIdx lonIdx

/-- Whether the center of the first cell is in water. -/
def firstPointInWater : Run Bool :=
  (indices 0 c.getNumberOfEdges).foldlM (fun firstPointInWater edgeId => do
    if I.arcsIntersect (← c.getStartLatByEdgeIdx edgeId) (← c.getStartLonByEdgeIdx edgeId)
        (← c.getDestLatByEdgeIdx edgeId) (← c.getDestLonByEdgeIdx edgeId)
        INITIAL_POINT_LAT INITIAL_POINT_LON (← rd centerPointLat 0) (← rd centerPointLon 0) then
      return !firstPointInWater
    else return firstPointInWater) INITIAL_POINT_IN_WATER

/-- The grid with the variables of the loop over the bottom row. -/
structure BottomRow where
  grid : List (List GridCell)
  firstCenterPointInWater : List Bool
  firstAdditionalEdges : List (List Int)

/-- The first cell is set and not initialised, as its center is known. -/
def setFirstCell (grid : List (List GridCell)) (inWater : Bool) : Run BottomRow := do
  let cell ← (← cellAt grid 0 0).setCenterPoint I c entryOrder fuel (← rd centerPointLat 0)
    (← rd centerPointLon 0) inWater
  return {
    grid := ← setCell grid 0 0 cell
    firstCenterPointInWater := ← wr (List.replicate 36 false) 0 inWater
    firstAdditionalEdges := ← wr (List.replicate 36 []) 0 cell.getAllContainedEdgeIDs }

/-- One iteration of the loop over the bottom row. -/
def initBottomCell (s : BottomRow) (lonIdx : Int) : Run BottomRow := do
  let (cell, inWater, edgeIds) ← (← cellAt s.grid 0 lonIdx).initCenterPoint I c entryOrder fuel
    (← rd centerPointLat 0) (← rd centerPointLon (lonIdx - 1))
    (← rd s.firstCenterPointInWater (lonIdx - 1)) (← rd s.firstAdditionalEdges (lonIdx - 1))
    .FROM_HORIZONTAL
  -- the set of the cell before this one was changed
  let firstAdditionalEdges ← wr s.firstAdditionalEdges (lonIdx - 1) edgeIds
  return {
    grid := ← setCell s.grid 0 lonIdx cell
    firstCenterPointInWater := ← wr s.firstCenterPointInWater lonIdx inWater
    firstAdditionalEdges := ← wr firstAdditionalEdges lonIdx cell.getAllContainedEdgeIDs }

/-- The grid with the variables of the loop over a column. -/
structure Column where
  grid : List (List GridCell)
  previousPointInWater : Bool
  previousEdges : List Int

/-- One iteration of the loop over a column. -/
def initColumnCell (lonIdx : Int) (s : Column) (latIdx : Int) : Run Column := do
  let (cell, inWater, _) ← (← cellAt s.grid latIdx lonIdx).initCenterPoint I c entryOrder fuel
    (← rd centerPointLat (latIdx - 1)) (← rd centerPointLon lonIdx) s.previousPointInWater
    s.previousEdges .FROM_VERTICAL
  return {
    grid := ← setCell s.grid latIdx lonIdx cell
    previousPointInWater := inWater
    previousEdges := cell.getAllContainedEdgeIDs }

/-- One column, above the bottom row. -/
def initColumn (row : BottomRow) (grid : List (List GridCell)) (lonIdx : Int) :
    Run (List (List GridCell)) := do
  let s ← (indices 1 18).foldlM (initColumnCell I c entryOrder fuel lonIdx)
    { grid
      previousPointInWater := ← rd row.firstCenterPointInWater lonIdx
      previousEdges := ← rd row.firstAdditionalEdges lonIdx }
  return s.grid

/-- `PointInWaterChecker()`. -/
def create : Run PointInWaterChecker := do
  let grid ← createGrid I c entryOrder fuel
  let row ← setFirstCell I c entryOrder fuel grid (← firstPointInWater I c)
  let row ← (indices 1 36).foldlM (initBottomCell I c entryOrder fuel) row
  let grid ← (indices 0 36).foldlM (initColumn I c entryOrder fuel row) row.grid
  return { topLevelGrid := grid }

end constructor

/-- `latIdx` of `pointInWater`. -/
def latIndex (lat : ℚ) : Int :=
  if lat = 90 then 17
  else if lat = -90 then 0
  else if 0 < lat then toInt ((lat - floatMod lat 10) / 10) + 9
  else
    -- `%` works on positive numbers
    let tmpLat := lat * -1
    toInt (8 - (tmpLat - floatMod tmpLat 10) / 10)

/-- `lonIdx` of `pointInWater`. -/
def lonIndex (lon : ℚ) : Int :=
  if lon = 180 then 35
  else if lon = -180 then 0
  else if 0 < lon then toInt ((lon - floatMod lon 10) / 10) + 18
  else
    let tmpLon := lon * -1
    toInt (17 - (tmpLon - floatMod tmpLon 10) / 10)

def pointInWater (I : IntersectionHelper) (c : CoastlineWays ℚ) (checker : PointInWaterChecker)
    (lat lon : ℚ) : Run Bool := do
  (← cellAt checker.topLevelGrid (latIndex lat) (lonIndex lon)).isPointInWater I c lat lon

/-! ## The cell of the top level -/

theorem toInt_intCast (n : Int) : toInt n = n := by
  simp [toInt]

/-- Of a number that is not negative the conversion takes the integer part. -/
theorem toInt_of_nonneg {x : ℚ} (h : 0 ≤ x) : toInt x = ⌊x⌋ := by
  rw [toInt, Int.tdiv_eq_ediv_of_nonneg (Rat.num_nonneg.mpr h)]
  exact (Rat.floor_def x).symm

/-- What is left when the remainder is taken off. -/
theorem sub_floatMod_div {x : ℚ} (h : 0 ≤ x) : (x - floatMod x 10) / 10 = (⌊x / 10⌋ : ℚ) := by
  rw [floatMod, toInt_of_nonneg (by positivity)]
  ring

/-- The index of a coordinate that is between `-10 * k` and `10 * k`; there are `k`
cells on either side of zero. -/
def topIndex (k : Int) (x : ℚ) : Int :=
  if x = 10 * k then 2 * k - 1
  else if x = -(10 * k) then 0
  else if 0 < x then toInt ((x - floatMod x 10) / 10) + k
  else toInt ((k : ℚ) - 1 - (x * -1 - floatMod (x * -1) 10) / 10)

theorem latIndex_eq (lat : ℚ) : latIndex lat = topIndex 9 lat := by
  unfold latIndex topIndex
  norm_num

theorem lonIndex_eq (lon : ℚ) : lonIndex lon = topIndex 18 lon := by
  unfold lonIndex topIndex
  norm_num

theorem topIndex_of_pos {k : Int} {x : ℚ} (h0 : 0 < x) (h1 : x ≠ 10 * k) (h2 : x ≠ -(10 * k)) :
    topIndex k x = ⌊x / 10⌋ + k := by
  rw [topIndex, if_neg h1, if_neg h2, if_pos h0, sub_floatMod_div (le_of_lt h0), toInt_intCast]

theorem topIndex_of_nonpos {k : Int} {x : ℚ} (h0 : x ≤ 0) (h1 : x ≠ 10 * k)
    (h2 : x ≠ -(10 * k)) : topIndex k x = k - 1 - ⌊-x / 10⌋ := by
  have hneg : x * -1 = -x := by ring
  rw [topIndex, if_neg h1, if_neg h2, if_neg (not_lt.mpr h0), hneg,
    sub_floatMod_div (by linarith)]
  have hcast : (k : ℚ) - 1 - (⌊-x / 10⌋ : ℚ) = ((k - 1 - ⌊-x / 10⌋ : Int) : ℚ) := by push_cast; ring
  rw [hcast, toInt_intCast]

/-- The index is that of a cell which contains the coordinate. -/
theorem topIndex_spec {k : Int} (hk : 0 < k) {x : ℚ} (hlo : -(10 * k) ≤ x) (hhi : x ≤ 10 * k) :
    (0 ≤ topIndex k x ∧ topIndex k x < 2 * k) ∧
      10 * ((topIndex k x : ℚ) - k) ≤ x ∧ x ≤ 10 * ((topIndex k x : ℚ) - k) + 10 := by
  have hkq : (0 : ℚ) < k := by exact_mod_cast hk
  by_cases h1 : x = 10 * k
  · rw [topIndex, if_pos h1]
    refine ⟨by omega, ?_, ?_⟩ <;> push_cast <;> linarith
  · by_cases h2 : x = -(10 * k)
    · rw [topIndex, if_neg h1, if_pos h2]
      refine ⟨by omega, ?_, ?_⟩ <;> push_cast <;> linarith
    · by_cases h0 : 0 < x
      · have hfloor := Int.floor_le (x / 10)
        have hceil := Int.lt_floor_add_one (x / 10)
        have hpos : 0 ≤ ⌊x / 10⌋ := Int.floor_nonneg.mpr (by positivity)
        have hlt : ⌊x / 10⌋ < k := by
          apply Int.floor_lt.mpr
          have := lt_of_le_of_ne hhi h1
          linarith
        rw [topIndex_of_pos h0 h1 h2]
        refine ⟨by omega, ?_, ?_⟩ <;> push_cast <;> linarith
      · have hx : x ≤ 0 := not_lt.mp h0
        have hfloor := Int.floor_le (-x / 10)
        have hceil := Int.lt_floor_add_one (-x / 10)
        have hpos : 0 ≤ ⌊-x / 10⌋ := Int.floor_nonneg.mpr (by linarith)
        have hlt : ⌊-x / 10⌋ < k := by
          apply Int.floor_lt.mpr
          have := lt_of_le_of_ne hlo (Ne.symm h2)
          linarith
        rw [topIndex_of_nonpos hx h1 h2]
        refine ⟨by omega, ?_, ?_⟩ <;> push_cast <;> linarith

/-- The cell that `pointInWater` picks contains the point. -/
theorem topBox_contains {lat lon : ℚ} (hlat : -90 ≤ lat ∧ lat ≤ 90) (hlon : -180 ≤ lon ∧ lon ≤ 180) :
    (0 ≤ latIndex lat ∧ latIndex lat < 18) ∧ (0 ≤ lonIndex lon ∧ lonIndex lon < 36) ∧
      (topBox (latIndex lat) (lonIndex lon)).Contains lat lon := by
  obtain ⟨hi, hi₁, hi₂⟩ := topIndex_spec (k := 9) (by omega) (x := lat) (by push_cast; linarith)
    (by push_cast; linarith)
  obtain ⟨hj, hj₁, hj₂⟩ := topIndex_spec (k := 18) (by omega) (x := lon) (by push_cast; linarith)
    (by push_cast; linarith)
  rw [latIndex_eq, lonIndex_eq]
  push_cast at hi₁ hi₂ hj₁ hj₂
  exact ⟨hi, hj, ⟨hi₁, hi₂⟩, hj₁, hj₂⟩

/-! ## What the constructor keeps -/

/-- The grid has all cells, and each of them has the property. -/
structure AllCells (P : Int → Int → GridCell → Prop) (grid : List (List GridCell)) : Prop where
  cells : ∀ i j : Int, 0 ≤ i → i < 18 → 0 ≤ j → j < 36 → ∃ cell, cellAt grid i j = .ok cell
  holds : ∀ i j cell, cellAt grid i j = .ok cell → P i j cell

/-- New cells have the property and do not lose it when center points are set. -/
structure Kept (I : IntersectionHelper) (c : CoastlineWays ℚ) (entryOrder : List Int → List Int)
    (fuel : Nat) (P : Int → Int → GridCell → Prop) : Prop where
  create : ∀ i j cell, createCell I c entryOrder fuel i j = .ok cell → P i j cell
  first : ∀ w cell cell', P 0 0 cell →
    cell.setCenterPoint I c entryOrder fuel (-85) (-175) w = .ok cell' → P 0 0 cell'
  init : ∀ i j cell lat lon w ids dir r, P i j cell →
    cell.initCenterPoint I c entryOrder fuel lat lon w ids dir = .ok r → P i j r.1

section edges

variable {I : IntersectionHelper} {c : CoastlineWays ℚ} {entryOrder : List Int → List Int}
  {fuel : Nat} {grid grid' : List (List GridCell)} {P : Int → Int → GridCell → Prop}

theorem cellAt_setCell {i j : Int} {cell : GridCell} (h : setCell grid i j cell = .ok grid')
    (i' j' : Int) : cellAt grid' i' j' = if i' = i ∧ j' = j then .ok cell else cellAt grid i' j' := by
  simp only [setCell, bind_eq_ok] at h
  obtain ⟨row, hrow, row', hrow', hgrid⟩ := h
  rw [cellAt, cellAt, rd_of_wr hgrid]
  by_cases hi : i' = i
  · subst hi
    rw [if_pos rfl, ok_bind, rd_of_wr hrow', hrow, ok_bind]
    simp
  · rw [if_neg hi, if_neg (fun h => hi h.1)]

/-- One of the cells is replaced. -/
theorem AllCells.setCell (h : AllCells P grid) {i j : Int} {cell : GridCell} (hcell : P i j cell)
    (hset : setCell grid i j cell = .ok grid') : AllCells P grid' := by
  constructor
  · intro i' j' hi0 hi hj0 hj
    rw [cellAt_setCell hset]
    split_ifs
    · exact ⟨cell, rfl⟩
    · exact h.cells i' j' hi0 hi hj0 hj
  · intro i' j' cell' hat
    rw [cellAt_setCell hset] at hat
    split_ifs at hat with heq
    · obtain ⟨rfl, rfl⟩ := heq
      rw [← Except.ok.inj hat]
      exact hcell
    · exact h.holds i' j' cell' hat

theorem createGrid_keeps
    (hcreate : ∀ i j cell, createCell I c entryOrder fuel i j = .ok cell → P i j cell)
    (h : createGrid I c entryOrder fuel = .ok grid) : AllCells P grid := by
  obtain ⟨hrows, hrow⟩ := rd_of_mapM_indices (n := 18) h
  constructor
  · intro i j hi0 hi hj0 hj
    obtain ⟨row, hrd⟩ := exists_rd hi0 (a := grid) (by omega)
    obtain ⟨hlen, _⟩ := rd_of_mapM_indices (n := 36) (hrow i row hrd)
    obtain ⟨cell, hcell⟩ := exists_rd hj0 (a := row) (by omega)
    exact ⟨cell, by rw [cellAt, hrd, ok_bind, hcell]⟩
  · intro i j cell hat
    rw [cellAt, bind_eq_ok] at hat
    obtain ⟨row, hrd, hcell⟩ := hat
    obtain ⟨_, hread⟩ := rd_of_mapM_indices (n := 36) (hrow i row hrd)
    exact hcreate i j cell (hread j cell hcell)

theorem rd_centerPointLat : rd centerPointLat 0 = .ok (-85) := by decide +kernel

theorem rd_centerPointLon : rd centerPointLon 0 = .ok (-175) := by decide +kernel

theorem setFirstCell_keeps (hkept : Kept I c entryOrder fuel P) (h : AllCells P grid) {w : Bool}
    {row : BottomRow} (hrun : setFirstCell I c entryOrder fuel grid w = .ok row) :
    AllCells P row.grid := by
  simp only [setFirstCell, rd_centerPointLat, rd_centerPointLon, ok_bind, bind_eq_ok, pure_eq_ok,
    Except.ok.injEq] at hrun
  obtain ⟨old, hold, cell, hcell, grid', hset, _, _, _, _, rfl⟩ := hrun
  exact h.setCell (hkept.first w old cell (h.holds 0 0 old hold) hcell) hset

theorem initBottomCell_keeps (hkept : Kept I c entryOrder fuel P) {s s' : BottomRow} {lonIdx : Int}
    (h : AllCells P s.grid) (hrun : initBottomCell I c entryOrder fuel s lonIdx = .ok s') :
    AllCells P s'.grid := by
  simp only [initBottomCell, bind_eq_ok, pure_eq_ok, Except.ok.injEq] at hrun
  obtain ⟨old, hold, _, _, _, _, _, _, _, _, r, hr, _, _, grid', hset, _, _, _, _, rfl⟩ := hrun
  exact h.setCell (hkept.init 0 lonIdx old _ _ _ _ _ r (h.holds 0 lonIdx old hold) hr) hset

theorem initColumnCell_keeps (hkept : Kept I c entryOrder fuel P) {s s' : Column}
    {lonIdx latIdx : Int} (h : AllCells P s.grid)
    (hrun : initColumnCell I c entryOrder fuel lonIdx s latIdx = .ok s') : AllCells P s'.grid := by
  simp only [initColumnCell, bind_eq_ok, pure_eq_ok, Except.ok.injEq] at hrun
  obtain ⟨old, hold, _, _, _, _, r, hr, grid', hset, rfl⟩ := hrun
  exact h.setCell (hkept.init latIdx lonIdx old _ _ _ _ _ r (h.holds latIdx lonIdx old hold) hr)
    hset

theorem initColumn_keeps (hkept : Kept I c entryOrder fuel P) {row : BottomRow} {lonIdx : Int}
    (h : AllCells P grid) (hrun : initColumn I c entryOrder fuel row grid lonIdx = .ok grid') :
    AllCells P grid' := by
  simp only [initColumn, bind_eq_ok, pure_eq_ok, Except.ok.injEq] at hrun
  obtain ⟨_, _, _, _, s, hs, rfl⟩ := hrun
  exact foldlM_inv (P := fun _ s => AllCells P s.grid) _ _ _ h hs
    fun _ _ _ _ _ _ hs hstep => initColumnCell_keeps hkept hs hstep

/-- The cells after the constructor. -/
theorem create_keeps (hkept : Kept I c entryOrder fuel P) {checker : PointInWaterChecker}
    (h : create I c entryOrder fuel = .ok checker) : AllCells P checker.topLevelGrid := by
  simp only [create, bind_eq_ok, pure_eq_ok, Except.ok.injEq] at h
  obtain ⟨grid, hgrid, w, _, row, hfirst, row', hrow, grid', hcolumns, rfl⟩ := h
  have hbottom : AllCells P row'.grid :=
    foldlM_inv (P := fun _ s => AllCells P s.grid) _ _ _
      (setFirstCell_keeps hkept (createGrid_keeps hkept.create hgrid) hfirst) hrow
      fun _ _ _ _ _ _ hs hstep => initBottomCell_keeps hkept hs hstep
  exact foldlM_inv (P := fun _ grid => AllCells P grid) _ _ _ hbottom hcolumns
    fun _ _ _ _ _ _ hs hstep => initColumn_keeps hkept hs hstep

/-! ## The edges of the cells -/

/-- A cell of the top level has the edges of all its leaves. -/
theorem createCell_assigned (horder : ∀ l, (entryOrder l).Perm l) {i j : Int} {cell : GridCell}
    (h : createCell I c entryOrder fuel i j = .ok cell) : cell.Assigned c (topBox i j) := by
  rw [createCell, bind_eq_ok] at h
  obtain ⟨edgesInCell, hedges, hcell⟩ := h
  apply buildLowerLevel_assigned (fun l e => (horder l).mem_iff.mpr) fuel edgesInCell (topBox i j)
    cell _ _ _ hcell
  · simp only [topBox]
    linarith
  · simp only [topBox]
    linarith
  · intro e hend
    apply mem_of_hasEnd hedges e _ hend
    have hread : ∃ lat, c.getStartLatByEdgeIdx e = .ok lat ∨ c.getDestLatByEdgeIdx e = .ok lat := by
      rcases hend with ⟨lat, _, hlat, _⟩ | ⟨lat, _, hlat, _⟩
      · exact ⟨lat, Or.inl hlat⟩
      · exact ⟨lat, Or.inr hlat⟩
    have hidx : ∃ x, rd c.edgePosStart e = .ok x := by
      obtain ⟨lat, h | h⟩ := hread
      · rw [CoastlineWays.getStartLatByEdgeIdx, bind_eq_ok] at h
        exact ⟨h.choose, h.choose_spec.1⟩
      · rw [CoastlineWays.getDestLatByEdgeIdx, bind_eq_ok] at h
        exact ⟨h.choose, h.choose_spec.1⟩
    obtain ⟨x, hx⟩ := hidx
    exact mem_indices.mpr (rd_bounds hx)

/-- After the constructor the leaves have their edges. -/
theorem create_covers (horder : ∀ l, (entryOrder l).Perm l) {checker : PointInWaterChecker}
    (h : create I c entryOrder fuel = .ok checker) :
    AllCells (fun i j cell => cell.Assigned c (topBox i j)) checker.topLevelGrid := by
  apply create_keeps _ h
  constructor
  · intro i j cell hcell
    exact createCell_assigned horder hcell
  · intro w cell cell' ha hrun
    exact ((GridCell.centerPoint_keeps cell).1 _ _ _ _ hrun).assigned ha
  · intro i j cell lat lon w ids dir r ha hrun
    exact ((GridCell.centerPoint_keeps cell).2 _ _ _ _ _ _ hrun).assigned ha

/-- `pointInWater` asks a leaf that contains the point and has all the edges that
begin or end in it. -/
theorem pointInWater_spec (I : IntersectionHelper) (c : CoastlineWays ℚ)
    (entryOrder : List Int → List Int) (fuel : Nat) (checker : PointInWaterChecker) (lat lon : ℚ)
    (horder : ∀ l, (entryOrder l).Perm l) (hcreate : create I c entryOrder fuel = .ok checker)
    (hlat : -90 ≤ lat ∧ lat ≤ 90) (hlon : -180 ≤ lon ∧ lon ≤ 180) :
    (0 ≤ latIndex lat ∧ latIndex lat < 18) ∧ (0 ≤ lonIndex lon ∧ lonIndex lon < 36) ∧
      ∃ cell l b, cellAt checker.topLevelGrid (latIndex lat) (lonIndex lon) = .ok cell ∧
        cell.leafAt (topBox (latIndex lat) (lonIndex lon)) lat lon = (l, b) ∧
        pointInWater I c checker lat lon = l.isPointInWater I c lat lon ∧ b.Contains lat lon ∧
        ∀ e, HasEnd c b e → e ∈ l.edgeIds := by
  obtain ⟨hi, hj, hin⟩ := topBox_contains hlat hlon
  have hcovers := create_covers horder hcreate
  obtain ⟨cell, hcell⟩ := hcovers.cells _ _ hi.1 hi.2 hj.1 hj.2
  obtain ⟨hleaf, hedges⟩ := GridCell.leafAt_spec (hcovers.holds _ _ cell hcell) hin
  refine ⟨hi, hj, cell, _, _, hcell, rfl, ?_, hleaf, hedges⟩
  rw [pointInWater, hcell, ok_bind]
  exact GridCell.isPointInWater_eq I c cell _ lat lon

/-- One edge, from (9/2, 4) to (9/2, 6), and a point in the leaf that has it. -/
theorem pointInWater_spec_oneEdge :
    ∃ checker cell l b,
      cellAt checker.topLevelGrid (latIndex 4) (lonIndex 5) = .ok cell ∧
        cell.leafAt (topBox (latIndex 4) (lonIndex 5)) 4 5 = (l, b) ∧ l.edgeIds = [0] ∧
        pointInWater ⟨fun _ _ _ _ _ _ _ _ => true, fun _ _ _ _ _ _ _ => true⟩
            ⟨[0], [4, 6], [9 / 2, 9 / 2]⟩ checker 4 5
          = l.isPointInWater ⟨fun _ _ _ _ _ _ _ _ => true, fun _ _ _ _ _ _ _ => true⟩
            ⟨[0], [4, 6], [9 / 2, 9 / 2]⟩ 4 5 ∧
        b.Contains 4 5 ∧ ∀ e, HasEnd ⟨[0], [4, 6], [9 / 2, 9 / 2]⟩ b e → e ∈ l.edgeIds := by
  obtain ⟨checker, hcreate, hedges⟩ := exists_of_map_toOption
    (p := fun checker => ((cellAt checker.topLevelGrid (latIndex 4) (lonIndex 5)).toOption.map
      fun cell => (cell.leafAt (topBox (latIndex 4) (lonIndex 5)) 4 5).1.edgeIds) = some [0])
    (x := create ⟨fun _ _ _ _ _ _ _ _ => true, fun _ _ _ _ _ _ _ => true⟩
      ⟨[0], [4, 6], [9 / 2, 9 / 2]⟩ id 1) (by decide +kernel)
  obtain ⟨_, _, cell, l, b, hcell, hleaf, h⟩ := pointInWater_spec _ _ id 1 checker 4 5
    (fun l => List.Perm.refl l) hcreate (by norm_num) (by norm_num)
  refine ⟨checker, cell, l, b, hcell, hleaf, ?_, h⟩
  rw [decide_eq_true_eq, hcell, Except.toOption, Option.map_some, hleaf] at hedges
  exact Option.some.inj hedges

end edges

end PointInWaterChecker

end SeaRouter
