import Mathlib.Data.Fin.VecNotation
import Mathlib.Tactic.FinCases
import Mathlib.Tactic.Linarith
import SeaRouter.CoastlineGrid.CoastlineWays
import SeaRouter.Utils.IntersectionHelper

/-!
# `coastlinegrid/GridCell.java`, `GridParent.java` and `GridLeaf.java`: the tree of cells

A cell is a leaf, which lists the edges in it, or it is divided into 3 x 3
smaller cells.  Coordinates are exact.  The tests of `IntersectionHelper.java`
for the intersection of two arcs are left open here, the results hold for all such
tests; those of the source are in `Utils.IntersectionHelper`.

A set of edge ids is a list without duplicates, `add` is `List.insert` and
`addAll` is the union of two lists.  The order in which a set is iterated is the
function `entryOrder`.

* `buildLowerLevel_assigned`: every leaf of a tree has the edges that begin or
  end in it.
* `leafAt_spec`: `isPointInWater` asks a leaf that contains the point.
-/

namespace SeaRouter

open Java

/-! ## `IntersectionHelper.java` -/

/-- The two tests for an intersection.  The arguments are the latitude and the
longitude of the ends of two arcs, or those of one arc, a latitude and the two
longitudes between which it is crossed. -/
structure IntersectionHelper where
  arcsIntersect : ℚ → ℚ → ℚ → ℚ → ℚ → ℚ → ℚ → ℚ → Bool
  crossesLatitude : ℚ → ℚ → ℚ → ℚ → ℚ → ℚ → ℚ → Bool

/-- The result of `getPositionInfoOfPointRelativeToCell`, in its order. -/
structure Position where
  west : Bool
  east : Bool
  north : Bool
  south : Bool
deriving DecidableEq, Repr

/-- The point is in none of the four directions. -/
def Position.isInside (p : Position) : Bool := !(p.west || p.east || p.north || p.south)

def IntersectionHelper.getPositionInfoOfPointRelativeToCell (pointToCheckLat pointToCheckLon
    westernBoundLon easternBoundLon southernBoundLat northernBoundLat : ℚ) : Position where
  west := pointToCheckLon < westernBoundLon
  east := ¬ pointToCheckLon < westernBoundLon ∧ easternBoundLon < pointToCheckLon
  south := pointToCheckLat < southernBoundLat
  north := ¬ pointToCheckLat < southernBoundLat ∧ northernBoundLat < pointToCheckLat

/-! ## The cells -/

/-- The boundaries of a cell. -/
structure Box where
  southernLatitude : ℚ
  northernLatitude : ℚ
  westernLongitude : ℚ
  easternLongitude : ℚ
deriving DecidableEq, Repr

/-- The point is in the cell or on its border. -/
def Box.Contains (b : Box) (lat lon : ℚ) : Prop :=
  (b.southernLatitude ≤ lat ∧ lat ≤ b.northernLatitude) ∧
    b.westernLongitude ≤ lon ∧ lon ≤ b.easternLongitude

/-- The fields of `GridLeaf`. -/
structure GridLeaf where
  edgeIds : List Int
  centerPointInWater : Bool
  latCenterPoint : ℚ
  lonCenterPoint : ℚ
deriving DecidableEq, Repr

/-- The fields of `GridParent`, without the lower level. -/
structure GridParent where
  box : Box
  innerLatBorders : ℚ × ℚ
  innerLonBorders : ℚ × ℚ
  centerPointLat : ℚ
  centerPointLon : ℚ
deriving DecidableEq, Repr

/-- A cell: the classes `GridLeaf` and `GridParent`, the latter with its
`lowerLevelCells`, by latitude and by longitude. -/
inductive GridCell where
  | leaf (l : GridLeaf)
  | parent (p : GridParent) (lowerLevelCells : Fin 3 → Fin 3 → GridCell)

/-- For the indices `0`, `1` and `2` of the lower cells. -/
instance neZeroThree : NeZero 3 := ⟨by decide⟩

def GridCell.EDGE_THRESHOLD : Nat := 1000

namespace GridParent

/-- The fields that the constructor and `buildLowerLevel` set first. -/
def new (box : Box) : GridParent :=
  let latSeparation := |box.northernLatitude - box.southernLatitude| / 3
  let lonSeparation := |box.westernLongitude - box.easternLongitude| / 3
  { box
    innerLatBorders := (box.southernLatitude + latSeparation,
      box.southernLatitude + 2 * latSeparation)
    innerLonBorders := (box.westernLongitude + lonSeparation,
      box.westernLongitude + 2 * lonSeparation)
    centerPointLat := 0
    centerPointLon := 0 }

/-- `lowerLevelLat`. -/
def lowerLevelLat (p : GridParent) : Fin 4 → ℚ :=
  ![p.box.southernLatitude, p.innerLatBorders.1, p.innerLatBorders.2, p.box.northernLatitude]

/-- `lowerLevelLon`. -/
def lowerLevelLon (p : GridParent) : Fin 4 → ℚ :=
  ![p.box.westernLongitude, p.innerLonBorders.1, p.innerLonBorders.2, p.box.easternLongitude]

/-- The boundaries of a cell of the lower level. -/
def lowerBox (p : GridParent) (latIdx lonIdx : Fin 3) : Box where
  southernLatitude := p.lowerLevelLat latIdx.castSucc
  northernLatitude := p.lowerLevelLat latIdx.succ
  westernLongitude := p.lowerLevelLon lonIdx.castSucc
  easternLongitude := p.lowerLevelLon lonIdx.succ

end GridParent

/-! ## The edges in a cell -/

/-- The test with which the constructors of `GridParent` and `PointInWaterChecker`
pick the edges of a cell. -/
def isEdgeInCell (I : IntersectionHelper) (c : CoastlineWays ℚ) (b : Box) (edgeId : Int) :
    Run Bool := do
  let startLat ← c.getStartLatByEdgeIdx edgeId
  let startLon ← c.getStartLonByEdgeIdx edgeId
  let startResults := IntersectionHelper.getPositionInfoOfPointRelativeToCell startLat startLon
    b.westernLongitude b.easternLongitude b.southernLatitude b.northernLatitude
  if startResults.isInside then return true
  else
    let destLat ← c.getDestLatByEdgeIdx edgeId
    let destLon ← c.getDestLonByEdgeIdx edgeId
    let destResults := IntersectionHelper.getPositionInfoOfPointRelativeToCell destLat destLon
      b.westernLongitude b.easternLongitude b.southernLatitude b.northernLatitude
    if destResults.isInside then return true
    else if startResults.west && destResults.west || startResults.east && destResults.east ||
        startResults.north && destResults.north || startResults.south && destResults.south then
      -- trivially not contained
      return false
    else
      return I.arcsIntersect startLat startLon destLat destLon b.southernLatitude
          b.westernLongitude b.northernLatitude b.westernLongitude ||
        I.arcsIntersect startLat startLon destLat destLon b.southernLatitude
          b.easternLongitude b.northernLatitude b.easternLongitude ||
        I.crossesLatitude startLat startLon destLat destLon b.southernLatitude
          b.westernLongitude b.easternLongitude ||
        I.crossesLatitude startLat startLon destLat destLon b.northernLatitude
          b.westernLongitude b.easternLongitude

/-- One iteration of the loops over the edges. -/
def addEdgeInCell (I : IntersectionHelper) (c : CoastlineWays ℚ) (b : Box)
    (edgesInCell : List Int) (edgeId : Int) : Run (List Int) := do
  if ← isEdgeInCell I c b edgeId then return edgesInCell.insert edgeId else return edgesInCell

/-! ## `buildLowerLevel` -/

/-- A 3 x 3 array is filled row by row. -/
def gridM {α : Type} (f : Fin 3 → Fin 3 → Run α) : Run (Fin 3 → Fin 3 → α) := do
  let row (i : Fin 3) : Run (Fin 3 → α) := do return ![← f i 0, ← f i 1, ← f i 2]
  return ![← row 0, ← row 1, ← row 2]

/-- `GridParent(edgeIDs, ..)`, which calls `buildLowerLevel(edgeIDs)`; `fuel` bounds
the depth of the tree. -/
def buildLowerLevel (I : IntersectionHelper) (c : CoastlineWays ℚ)
    (entryOrder : List Int → List Int) : Nat → List Int → Box → Run GridCell
  | 0, _, _ => throw .outOfFuel
  | fuel + 1, edgeIDs, box => do
    let p := GridParent.new box
    let lowerLevelCells ← gridM fun latIdx lonIdx => do
      let b := p.lowerBox latIdx lonIdx
      let edgesInCell ← (entryOrder edgeIDs).foldlM (addEdgeInCell I c b) []
      if GridCell.EDGE_THRESHOLD ≤ edgesInCell.length then
        buildLowerLevel I c entryOrder fuel edgesInCell b
      else
        return .leaf {
          edgeIds := entryOrder edgesInCell
          centerPointInWater := false
          latCenterPoint := (b.southernLatitude + b.northernLatitude) / 2
          lonCenterPoint := (b.westernLongitude + b.easternLongitude) / 2 }
    return .parent p lowerLevelCells

/-! ## `isPointInWater` -/

namespace GridLeaf

def isPointInWater (I : IntersectionHelper) (c : CoastlineWays ℚ) (l : GridLeaf) (lat lon : ℚ) :
    Run Bool :=
  l.edgeIds.foldlM (fun pointInWater idx => do
    if I.arcsIntersect lat lon l.latCenterPoint l.lonCenterPoint (← c.getStartLatByEdgeIdx idx)
        (← c.getStartLonByEdgeIdx idx) (← c.getDestLatByEdgeIdx idx)
        (← c.getDestLonByEdgeIdx idx) then return !pointInWater
    else return pointInWater) l.centerPointInWater

end GridLeaf

/-- The index of the cell of the lower level between whose borders a coordinate
lies. -/
def innerIdx (innerBorders : ℚ × ℚ) (x : ℚ) : Fin 3 :=
  if x < innerBorders.1 then 0 else if x < innerBorders.2 then 1 else 2

namespace GridCell

def isPointInWater (I : IntersectionHelper) (c : CoastlineWays ℚ) :
    GridCell → ℚ → ℚ → Run Bool
  | .leaf l, lat, lon => l.isPointInWater I c lat lon
  | .parent p lowerLevelCells, lat, lon =>
    isPointInWater I c
      (lowerLevelCells (innerIdx p.innerLatBorders lat) (innerIdx p.innerLonBorders lon)) lat lon

/-- The leaf that `isPointInWater` asks, with its boundaries; `b` are those of the
cell. -/
def leafAt : GridCell → Box → ℚ → ℚ → GridLeaf × Box
  | .leaf l, b, _, _ => (l, b)
  | .parent p lowerLevelCells, _, lat, lon =>
    let latIdx := innerIdx p.innerLatBorders lat
    let lonIdx := innerIdx p.innerLonBorders lon
    leafAt (lowerLevelCells latIdx lonIdx) (p.lowerBox latIdx lonIdx) lat lon

theorem isPointInWater_eq (I : IntersectionHelper) (c : CoastlineWays ℚ) (cell : GridCell) (b : Box)
    (lat lon : ℚ) :
    isPointInWater I c cell lat lon = (leafAt cell b lat lon).1.isPointInWater I c lat lon := by
  induction cell generalizing b with
  | leaf l => rfl
  | parent p lowerLevelCells ih =>
    rw [isPointInWater, leafAt]
    exact ih _ _ _

end GridCell

/-! ## The edges of a tree -/

/-- The edge begins or ends in the cell. -/
def HasEnd (c : CoastlineWays ℚ) (b : Box) (edgeId : Int) : Prop :=
  (∃ lat lon, c.getStartLatByEdgeIdx edgeId = .ok lat ∧ c.getStartLonByEdgeIdx edgeId = .ok lon ∧
      b.Contains lat lon) ∨
    ∃ lat lon, c.getDestLatByEdgeIdx edgeId = .ok lat ∧ c.getDestLonByEdgeIdx edgeId = .ok lon ∧
      b.Contains lat lon

/-- The inner borders of a parent are in order. -/
structure GridParent.Ordered (p : GridParent) : Prop where
  lat₁ : p.box.southernLatitude ≤ p.innerLatBorders.1
  lat₂ : p.innerLatBorders.1 ≤ p.innerLatBorders.2
  lat₃ : p.innerLatBorders.2 ≤ p.box.northernLatitude
  lon₁ : p.box.westernLongitude ≤ p.innerLonBorders.1
  lon₂ : p.innerLonBorders.1 ≤ p.innerLonBorders.2
  lon₃ : p.innerLonBorders.2 ≤ p.box.easternLongitude

/-- Every leaf of the tree has the edges that begin or end in it, and the cells
of a lower level cover their parent; `b` are the boundaries of the cell. -/
def GridCell.Assigned (c : CoastlineWays ℚ) : GridCell → Box → Prop
  | .leaf l, b => ∀ e, HasEnd c b e → e ∈ l.edgeIds
  | .parent p lowerLevelCells, b => p.box = b ∧ p.Ordered ∧
    ∀ i j, Assigned c (lowerLevelCells i j) (p.lowerBox i j)

section tree

variable {I : IntersectionHelper} {c : CoastlineWays ℚ} {entryOrder : List Int → List Int} {b b' : Box}

theorem HasEnd.mono (hb : ∀ lat lon, b.Contains lat lon → b'.Contains lat lon) {e : Int}
    (h : HasEnd c b e) : HasEnd c b' e := by
  rcases h with ⟨lat, lon, hlat, hlon, hin⟩ | ⟨lat, lon, hlat, hlon, hin⟩
  · exact Or.inl ⟨lat, lon, hlat, hlon, hb lat lon hin⟩
  · exact Or.inr ⟨lat, lon, hlat, hlon, hb lat lon hin⟩

theorem isInside_iff {lat lon : ℚ} :
    (IntersectionHelper.getPositionInfoOfPointRelativeToCell lat lon b.westernLongitude
      b.easternLongitude b.southernLatitude b.northernLatitude).isInside = true ↔
      b.Contains lat lon := by
  simp only [Position.isInside, IntersectionHelper.getPositionInfoOfPointRelativeToCell,
    Box.Contains, Bool.not_eq_true', Bool.or_eq_false_iff, decide_eq_false_iff_not, not_lt,
    not_and]
  constructor
  · intro h
    obtain ⟨⟨⟨hw, he⟩, hn⟩, hs⟩ := h
    exact ⟨⟨hs, hn hs⟩, hw, he hw⟩
  · intro h
    exact ⟨⟨⟨h.2.1, fun _ => h.2.2⟩, fun _ => h.1.2⟩, h.1.1⟩

/-- An edge with an end in the cell passes the test. -/
theorem isEdgeInCell_of_hasEnd {e : Int} {r : Bool} (h : HasEnd c b e)
    (hrun : isEdgeInCell I c b e = .ok r) : r = true := by
  unfold isEdgeInCell at hrun
  rw [bind_eq_ok] at hrun
  obtain ⟨startLat, hslat, hrun⟩ := hrun
  rw [bind_eq_ok] at hrun
  obtain ⟨startLon, hslon, hrun⟩ := hrun
  by_cases hstart : b.Contains startLat startLon
  · simp only [isInside_iff.mpr hstart, if_true, pure_eq_ok, Except.ok.injEq] at hrun
    exact hrun.symm
  · rw [if_neg (fun hin => hstart (isInside_iff.mp hin)), bind_eq_ok] at hrun
    obtain ⟨destLat, hdlat, hrun⟩ := hrun
    rw [bind_eq_ok] at hrun
    obtain ⟨destLon, hdlon, hrun⟩ := hrun
    have hdest : b.Contains destLat destLon := by
      rcases h with ⟨lat, lon, hlat, hlon, hin⟩ | ⟨lat, lon, hlat, hlon, hin⟩
      · rw [hslat, Except.ok.injEq] at hlat
        rw [hslon, Except.ok.injEq] at hlon
        exact absurd (hlat ▸ hlon ▸ hin) hstart
      · rw [hdlat, Except.ok.injEq] at hlat
        rw [hdlon, Except.ok.injEq] at hlon
        exact hlat ▸ hlon ▸ hin
    simp only [isInside_iff.mpr hdest, if_true, pure_eq_ok, Except.ok.injEq] at hrun
    exact hrun.symm

/-- The edges with an end in the cell are picked. -/
theorem mem_of_hasEnd {ids edgesInCell : List Int}
    (hrun : ids.foldlM (addEdgeInCell I c b) [] = .ok edgesInCell) :
    ∀ e ∈ ids, HasEnd c b e → e ∈ edgesInCell := by
  apply foldlM_inv (P := fun pre set => ∀ e ∈ pre, HasEnd c b e → e ∈ set) ids [] edgesInCell
    (by simp) hrun
  intro pre x post set set' _ hP hstep e he hend
  rw [addEdgeInCell, bind_eq_ok] at hstep
  obtain ⟨r, hr, hstep⟩ := hstep
  have hold : e ∈ pre → e ∈ set' := by
    intro hpre
    cases r with
    | true =>
      obtain rfl : set.insert x = set' := by simpa using hstep
      exact List.mem_insert_of_mem (hP e hpre hend)
    | false =>
      obtain rfl : set = set' := by simpa using hstep
      exact hP e hpre hend
  rcases List.mem_append.mp he with hpre | hx
  · exact hold hpre
  · obtain rfl : e = x := List.mem_singleton.mp hx
    obtain rfl := isEdgeInCell_of_hasEnd hend hr
    obtain rfl : set.insert e = set' := by simpa using hstep
    exact List.mem_insert_self

theorem gridM_eq_ok {α : Type} {f : Fin 3 → Fin 3 → Run α} {g : Fin 3 → Fin 3 → α}
    (h : gridM f = .ok g) (i j : Fin 3) : f i j = .ok (g i j) := by
  simp only [gridM, bind_eq_ok, pure_eq_ok, Except.ok.injEq] at h
  obtain ⟨r₀, ⟨a₀, h₀₀, a₁, h₀₁, a₂, h₀₂, rfl⟩, r₁, ⟨b₀, h₁₀, b₁, h₁₁, b₂, h₁₂, rfl⟩,
    r₂, ⟨c₀, h₂₀, c₁, h₂₁, c₂, h₂₂, rfl⟩, rfl⟩ := h
  fin_cases i <;> fin_cases j <;> assumption

theorem GridParent.new_ordered (hlat : b.southernLatitude ≤ b.northernLatitude)
    (hlon : b.westernLongitude ≤ b.easternLongitude) : (GridParent.new b).Ordered := by
  have h1 : |b.northernLatitude - b.southernLatitude|
      = b.northernLatitude - b.southernLatitude := abs_of_nonneg (by linarith)
  have h2 : |b.westernLongitude - b.easternLongitude|
      = b.easternLongitude - b.westernLongitude := by
    rw [abs_sub_comm]
    exact abs_of_nonneg (by linarith)
  constructor <;> simp only [GridParent.new, h1, h2] <;> linarith

/-- The cells of the lower level lie in their parent, with borders in order. -/
theorem GridParent.Ordered.lowerBox {p : GridParent} (h : p.Ordered) (i j : Fin 3) :
    (p.box.southernLatitude ≤ (p.lowerBox i j).southernLatitude ∧
      (p.lowerBox i j).southernLatitude ≤ (p.lowerBox i j).northernLatitude ∧
      (p.lowerBox i j).northernLatitude ≤ p.box.northernLatitude) ∧
    p.box.westernLongitude ≤ (p.lowerBox i j).westernLongitude ∧
      (p.lowerBox i j).westernLongitude ≤ (p.lowerBox i j).easternLongitude ∧
      (p.lowerBox i j).easternLongitude ≤ p.box.easternLongitude := by
  have h1 := h.lat₁
  have h2 := h.lat₂
  have h3 := h.lat₃
  have h4 := h.lon₁
  have h5 := h.lon₂
  have h6 := h.lon₃
  constructor
  · fin_cases i <;> simp [GridParent.lowerBox, GridParent.lowerLevelLat] <;> grind
  · fin_cases j <;> simp [GridParent.lowerBox, GridParent.lowerLevelLon] <;> grind

/-- Every leaf of a tree has the edges that begin or end in it. -/
theorem buildLowerLevel_assigned (horder : ∀ l e, e ∈ l → e ∈ entryOrder l) :
    ∀ (fuel : Nat) (edgeIDs : List Int) (b : Box) (cell : GridCell),
      b.southernLatitude ≤ b.northernLatitude → b.westernLongitude ≤ b.easternLongitude →
      (∀ e, HasEnd c b e → e ∈ edgeIDs) →
      buildLowerLevel I c entryOrder fuel edgeIDs b = .ok cell → cell.Assigned c b := by
  intro fuel
  induction fuel with
  | zero =>
    intro edgeIDs b cell _ _ _ hrun
    simp [buildLowerLevel, throw, throwThe, MonadExceptOf.throw] at hrun
  | succ fuel ih =>
    intro edgeIDs b cell hlat hlon hids hrun
    rw [buildLowerLevel, bind_eq_ok] at hrun
    obtain ⟨cells, hcells, hrun⟩ := hrun
    obtain rfl : GridCell.parent (GridParent.new b) cells = cell := by simpa using hrun
    have hord := GridParent.new_ordered hlat hlon
    refine ⟨rfl, hord, ?_⟩
    intro i j
    have hcell := gridM_eq_ok hcells i j
    obtain ⟨⟨hs, hsn, hn⟩, hw, hwe, he⟩ := hord.lowerBox i j
    have hsub : ∀ lat lon, ((GridParent.new b).lowerBox i j).Contains lat lon →
        b.Contains lat lon := by
      intro lat lon hin
      exact ⟨⟨le_trans hs hin.1.1, le_trans hin.1.2 hn⟩, le_trans hw hin.2.1, le_trans hin.2.2 he⟩
    rw [bind_eq_ok] at hcell
    obtain ⟨edgesInCell, hedges, hcell⟩ := hcell
    have hmem : ∀ e, HasEnd c ((GridParent.new b).lowerBox i j) e → e ∈ edgesInCell := by
      intro e hend
      exact mem_of_hasEnd hedges e (horder _ e (hids e (hend.mono hsub))) hend
    split_ifs at hcell with hmany
    · exact ih edgesInCell _ _ hsn hwe hmem hcell
    · rw [pure_eq_ok, Except.ok.injEq] at hcell
      rw [← hcell]
      intro e hend
      exact horder _ e (hmem e hend)

theorem innerIdx_contains {lo hi x : ℚ} {inner : ℚ × ℚ} (hlo : lo ≤ x) (hhi : x ≤ hi) :
    (![lo, inner.1, inner.2, hi] : Fin 4 → ℚ) (innerIdx inner x).castSucc ≤ x ∧
      x ≤ (![lo, inner.1, inner.2, hi] : Fin 4 → ℚ) (innerIdx inner x).succ := by
  unfold innerIdx
  split_ifs with h1 h2
  · exact ⟨hlo, le_of_lt h1⟩
  · exact ⟨not_lt.mp h1, le_of_lt h2⟩
  · exact ⟨not_lt.mp h2, hhi⟩

/-- `isPointInWater` asks a leaf that contains the point and has all the edges
that begin or end in it. -/
theorem GridCell.leafAt_spec {cell : GridCell} (h : cell.Assigned c b) {lat lon : ℚ}
    (hin : b.Contains lat lon) :
    (cell.leafAt b lat lon).2.Contains lat lon ∧
      ∀ e, HasEnd c (cell.leafAt b lat lon).2 e → e ∈ (cell.leafAt b lat lon).1.edgeIds := by
  induction cell generalizing b with
  | leaf l => exact ⟨hin, h⟩
  | parent p lowerLevelCells ih =>
    obtain ⟨rfl, _, hcells⟩ := h
    rw [leafAt]
    apply ih _ _ (hcells _ _)
    exact ⟨innerIdx_contains hin.1.1 hin.1.2, innerIdx_contains hin.2.1 hin.2.2⟩

end tree

end SeaRouter
