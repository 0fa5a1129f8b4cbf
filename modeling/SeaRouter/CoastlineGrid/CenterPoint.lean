import SeaRouter.CoastlineGrid.GridCell

/-!
# `coastlinegrid/GridLeaf.java` and `GridParent.java`: the center points

Whether the center of a cell is in water follows from the center of a neighbour:
the flag is flipped once for each edge that the way between the two crosses.  A
test throws when an end of the edge is too close to this way.  Then the count may
be off, and the loop begins again with a coordinate that is shifted a little.

* `exists_free`: an end blocks at most one of the coordinates that are tried, since
  the shift is larger than the width that it blocks.
* `probeLoop_spec`: a retry loop ends after at most two retries for each edge.
* `initCenterPoint_spec`: the same for a whole tree of cells; neither the coordinate
  nor the flag depend on the order in which the edges are visited.
-/

namespace SeaRouter

open Java

/-- `GridCell.ApproachDirection`. -/
inductive ApproachDirection where
  | FROM_HORIZONTAL
  | FROM_VERTICAL
deriving DecidableEq, Repr

namespace IntersectionHelper

def arcsIntersectWithException (I : IntersectionHelper)
    (latSourceA lonSourceA latDestA lonDestA latSourceB lonSourceB latDestB lonDestB : ℚ) :
    Run Bool :=
  if Utils.fuzzyEquals lonSourceA lonDestB (1 / 10000000) ||
      Utils.fuzzyEquals lonDestA lonDestB (1 / 10000000) then throw .illegalArgument
  else
    return (I.arcsIntersect latSourceA lonSourceA latDestA lonDestA latSourceB lonSourceB
      latDestB lonDestB)

def crossesLatitudeWithException (I : IntersectionHelper)
    (pointALat pointALon pointBLat pointBLon latToIntersect lonValStart lonValDest : ℚ) :
    Run Bool :=
  if Utils.fuzzyEquals pointALat latToIntersect (1 / 10000000) ||
      Utils.fuzzyEquals pointBLat latToIntersect (1 / 10000000) then throw .illegalArgument
  else
    return (I.crossesLatitude pointALat pointALon pointBLat pointBLon latToIntersect
      lonValStart lonValDest)

end IntersectionHelper

/-! ## The retry loops -/

/-- The loop over the edges in the `try` block: the flag that it leaves, and whether
it ran to its end. -/
def countCrossings (test : Int → Run Bool) : List Int → Bool → Run (Bool × Bool)
  | [], inWater => return (inWater, true)
  | edgeId :: edgeIds, inWater =>
    match test edgeId with
    | .ok true => countCrossings test edgeIds (!inWater)
    | .ok false => countCrossings test edgeIds inWater
    | .error .illegalArgument => return (inWater, false)
    | .error e => .error e

/-- The variables of a retry loop: the coordinate that is shifted, the flag of the
center point and `noException`. -/
structure Probe where
  coordinate : ℚ
  inWater : Bool
  noException : Bool
deriving DecidableEq, Repr

/-- One iteration of a retry loop. -/
def probeStep (test : ℚ → Int → Run Bool) (edgeIds : List Int) (originInWater : Bool) (s : Probe) :
    Run Probe := do
  let (inWater, noException) ← countCrossings (test s.coordinate) edgeIds s.inWater
  if noException then return { s with inWater := inWater, noException := true }
  else
    -- begin again at a slightly different coordinate
    return { coordinate := s.coordinate + 1 / 1000000, inWater := originInWater, noException := false }

/-- The guard of a retry loop. -/
def mustRetry (s : Probe) : Run Bool := return !s.noException

/-- The four retry loops of the two `initCenterPoint` functions; `fuel` is the number
of retries. -/
def probeLoop (fuel : Nat) (test : ℚ → Int → Run Bool) (edgeIds : List Int) (originInWater : Bool)
    (coordinate : ℚ) : Run (ℚ × Bool) := do
  let s ← probeStep test edgeIds originInWater
    { coordinate, inWater := originInWater, noException := true }
  let s ← whileLoop mustRetry (probeStep test edgeIds originInWater) fuel s
  return (s.coordinate, s.inWater)

/-- The test for a latitude between two longitudes. -/
def latitudeTest (I : IntersectionHelper) (c : CoastlineWays ℚ) (lonValStart lonValDest : ℚ)
    (lat : ℚ) (edgeId : Int) : Run Bool := do
  I.crossesLatitudeWithException (← c.getStartLatByEdgeIdx edgeId)
    (← c.getStartLonByEdgeIdx edgeId) (← c.getDestLatByEdgeIdx edgeId)
    (← c.getDestLonByEdgeIdx edgeId) lat lonValStart lonValDest

/-- The test for the arc between two points. -/
def arcTest (I : IntersectionHelper) (c : CoastlineWays ℚ) (latSource lonSource latDest : ℚ)
    (lonDest : ℚ) (edgeId : Int) : Run Bool := do
  I.arcsIntersectWithException (← c.getStartLatByEdgeIdx edgeId)
    (← c.getStartLonByEdgeIdx edgeId) (← c.getDestLatByEdgeIdx edgeId)
    (← c.getDestLonByEdgeIdx edgeId) latSource lonSource latDest lonDest

/-! ## `setCenterPoint` and `initCenterPoint` -/

namespace GridLeaf

def setCenterPoint (l : GridLeaf) (lat lon : ℚ) (isInWater : Bool) : GridLeaf :=
  { l with latCenterPoint := lat, lonCenterPoint := lon, centerPointInWater := isInWater }

/-- `initCenterPoint(..)`; the set `allEdgeIds` is returned, as it is changed. -/
def initCenterPoint (I : IntersectionHelper) (c : CoastlineWays ℚ)
    (entryOrder : List Int → List Int) (fuel : Nat) (l : GridLeaf)
    (originCenterPointLat originCenterPointLon : ℚ) (originCenterPointInWater : Bool)
    (allEdgeIds : List Int) (dir : ApproachDirection) : Run (GridLeaf × Bool × List Int) := do
  let allEdgeIds := l.edgeIds.foldl (fun s edgeId => s.insert edgeId) allEdgeIds
  match dir with
  | .FROM_HORIZONTAL =>
    let (lat, inWater) ← probeLoop fuel (latitudeTest I c originCenterPointLon l.lonCenterPoint)
      (entryOrder allEdgeIds) originCenterPointInWater l.latCenterPoint
    return ({ l with latCenterPoint := lat, centerPointInWater := inWater }, inWater, allEdgeIds)
  | .FROM_VERTICAL =>
    let (lon, inWater) ← probeLoop fuel
      (arcTest I c originCenterPointLat originCenterPointLon l.latCenterPoint)
      (entryOrder allEdgeIds) originCenterPointInWater l.lonCenterPoint
    return ({ l with lonCenterPoint := lon, centerPointInWater := inWater }, inWater, allEdgeIds)

end GridLeaf

namespace GridCell

def getAllContainedEdgeIDs : GridCell → List Int
  | .leaf l => l.edgeIds.dedup
  | .parent _ lowerLevelCells =>
    (List.finRange 3).foldl (fun fullList i => (List.finRange 3).foldl
      (fun fullList j => getAllContainedEdgeIDs (lowerLevelCells i j) ∪ fullList) fullList) []

def getCtrLat : GridCell → ℚ
  | .leaf l => l.latCenterPoint
  | .parent _ lowerLevelCells => getCtrLat (lowerLevelCells 1 1)

def getCtrLon : GridCell → ℚ
  | .leaf l => l.lonCenterPoint
  | .parent _ lowerLevelCells => getCtrLon (lowerLevelCells 1 1)

/-- `getCenterPoint()`. -/
def getCenterPoint : GridCell → ℚ × ℚ
  | .leaf l => (l.latCenterPoint, l.lonCenterPoint)
  | .parent p _ => (p.centerPointLat, p.centerPointLon)

end GridCell

/-- What `initCenterPoint` does with a cell: the cell, the flag and the edge ids. -/
abbrev InitCenterPoint : Type :=
  ℚ → ℚ → Bool → List Int → ApproachDirection → Run (GridCell × Bool × List Int)

namespace GridParent

/-- The cells above and below one of the middle row. -/
def initColumn (south north : InitCenterPoint) (middle : GridCell) (centerInWater : Bool)
    (middleEdgeList : List Int) : Run (GridCell × GridCell) := do
  let lat := middle.getCtrLat
  let lon := middle.getCtrLon
  let (south, _, middleEdgeList) ← south lat lon centerInWater middleEdgeList .FROM_VERTICAL
  let (north, _, _) ← north lat lon centerInWater middleEdgeList .FROM_VERTICAL
  return (south, north)

/-- `setCenterPoint(lat, lon, isInWater)`, with the two functions of the lower
level: `setMiddle` for the cell in the middle and `init` for the others. -/
def setCenterPoint (setMiddle : ℚ → ℚ → Bool → Run GridCell)
    (init : Fin 3 → Fin 3 → InitCenterPoint) (p : GridParent)
    (lowerLevelCells : Fin 3 → Fin 3 → GridCell) (lat lon : ℚ) (isInWater : Bool) :
    Run GridCell := do
  let middle ← setMiddle lat lon isInWater
  -- the middle row horizontally
  let middleEdgeList := middle.getAllContainedEdgeIDs
  let (west, westInWater, middleEdgeList) ← init 1 0 lat lon isInWater middleEdgeList
    .FROM_HORIZONTAL
  let (east, eastInWater, middleEdgeList) ← init 1 2 lat lon isInWater middleEdgeList
    .FROM_HORIZONTAL
  -- the other rows vertically
  let (south₀, north₀) ← initColumn (init 0 0) (init 2 0) west westInWater
    (lowerLevelCells 1 0).getAllContainedEdgeIDs
  let (south₁, north₁) ← initColumn (init 0 1) (init 2 1) middle isInWater middleEdgeList
  let (south₂, north₂) ← initColumn (init 0 2) (init 2 2) east eastInWater
    (lowerLevelCells 1 2).getAllContainedEdgeIDs
  return .parent { p with centerPointLat := lat, centerPointLon := lon }
    ![![south₀, south₁, south₂], ![west, middle, east], ![north₀, north₁, north₂]]

def centerLat (p : GridParent) : ℚ := (p.box.southernLatitude + p.box.northernLatitude) / 2

def centerLon (p : GridParent) : ℚ := (p.box.westernLongitude + p.box.easternLongitude) / 2

/-- `initCenterPoint(..)`, with the functions of the lower level. -/
def initCenterPoint (I : IntersectionHelper) (c : CoastlineWays ℚ)
    (entryOrder : List Int → List Int) (fuel : Nat) (setMiddle : ℚ → ℚ → Bool → Run GridCell)
    (init : Fin 3 → Fin 3 → InitCenterPoint) (p : GridParent)
    (lowerLevelCells : Fin 3 → Fin 3 → GridCell) : InitCenterPoint :=
  fun originCenterPointLat originCenterPointLon originCenterPointInWater edgeIds dir => do
    match dir with
    | .FROM_HORIZONTAL =>
      let edgeIds := (List.finRange 3).foldl
        (fun s i => (lowerLevelCells 1 i).getAllContainedEdgeIDs ∪ s) edgeIds
      let (lat, inWater) ← probeLoop fuel (latitudeTest I c originCenterPointLon p.centerLon)
        (entryOrder edgeIds) originCenterPointInWater p.centerLat
      let cell ← setCenterPoint setMiddle init p lowerLevelCells lat p.centerLon inWater
      return (cell, inWater, edgeIds)
    | .FROM_VERTICAL =>
      let edgeIds := (List.finRange 3).foldl
        (fun s i => (lowerLevelCells i 1).getAllContainedEdgeIDs ∪ s) edgeIds
      let (_, inWater) ← probeLoop fuel (arcTest I c p.centerLat p.centerLon originCenterPointLat)
        (entryOrder edgeIds) originCenterPointInWater originCenterPointLon
      let cell ← setCenterPoint setMiddle init p lowerLevelCells p.centerLat p.centerLon inWater
      return (cell, inWater, edgeIds)

end GridParent

namespace GridCell

section init

variable (I : IntersectionHelper) (c : CoastlineWays ℚ) (entryOrder : List Int → List Int)
  (fuel : Nat)

mutual

def setCenterPoint : GridCell → ℚ → ℚ → Bool → Run GridCell
  | .leaf l => fun lat lon isInWater => return .leaf (l.setCenterPoint lat lon isInWater)
  | .parent p lowerLevelCells =>
    GridParent.setCenterPoint (setCenterPoint (lowerLevelCells 1 1))
      (fun i j => initCenterPoint (lowerLevelCells i j)) p lowerLevelCells

def initCenterPoint : GridCell → InitCenterPoint
  | .leaf l => fun originLat originLon originInWater edgeIds dir => do
    let (l, inWater, edgeIds) ← l.initCenterPoint I c entryOrder fuel originLat originLon
      originInWater edgeIds dir
    return (.leaf l, inWater, edgeIds)
  | .parent p lowerLevelCells =>
    GridParent.initCenterPoint I c entryOrder fuel (setCenterPoint (lowerLevelCells 1 1))
      (fun i j => initCenterPoint (lowerLevelCells i j)) p lowerLevelCells

end

end init

end GridCell

/-! ## The end of a retry loop -/

/-- Of more values than there are points, one is close to none of them, when no two
values are close to the same point. -/
theorem exists_free (points : List ℚ) (x : ℚ) {step tolerance : ℚ} (h : 2 * tolerance < step) :
    ∃ k : Nat, k ≤ points.length ∧ ∀ p ∈ points, ¬ |p - (x + k * step)| ≤ tolerance := by
  by_contra hno
  push Not at hno
  have hblocked : ∀ k : Fin (points.length + 1), ∃ i : Fin points.length,
      |points[i] - (x + (k : Nat) * step)| ≤ tolerance := by
    intro k
    obtain ⟨p, hp, hclose⟩ := hno k (Nat.lt_succ_iff.mp k.isLt)
    obtain ⟨i, hi, rfl⟩ := List.mem_iff_getElem.mp hp
    exact ⟨⟨i, hi⟩, hclose⟩
  choose f hf using hblocked
  obtain ⟨k, m, hne, heq⟩ := Fintype.exists_ne_map_eq_of_card_lt f (by simp)
  have hk := abs_le.mp (hf k)
  have hm := abs_le.mp (heq ▸ hf m)
  -- two values are at least one step apart
  have happart : ∀ a b : Fin (points.length + 1), a < b →
      ((a : Nat) : ℚ) * step + step ≤ ((b : Nat) : ℚ) * step := by
    intro a b hab
    have hstep : 0 ≤ step := by
      have := abs_nonneg (points[f k] - (x + (k : Nat) * step))
      linarith [hf k]
    have hcast : ((a : Nat) : ℚ) + 1 ≤ ((b : Nat) : ℚ) := by exact_mod_cast hab
    calc ((a : Nat) : ℚ) * step + step = (((a : Nat) : ℚ) + 1) * step := by ring
      _ ≤ ((b : Nat) : ℚ) * step := mul_le_mul_of_nonneg_right hcast hstep
  rcases lt_or_gt_of_ne hne with hlt | hlt
  · have := happart k m hlt
    linarith [hk.1, hm.2]
  · have := happart m k hlt
    linarith [hk.2, hm.1]

/-- The test of an edge throws near its ends, and nothing else makes it throw. -/
def IsGuarded (test : ℚ → Int → Run Bool) (edgeId : Int) : Prop :=
  ∃ (a b : ℚ) (crosses : ℚ → Bool), ∀ x, test x edgeId =
    if |a - x| ≤ 1 / 10000000 ∨ |b - x| ≤ 1 / 10000000 then .error .illegalArgument
    else .ok (crosses x)

/-- The edge is too close to the coordinate. -/
def Blocks (test : ℚ → Int → Run Bool) (x : ℚ) (edgeId : Int) : Prop :=
  test x edgeId = .error .illegalArgument

/-- The number of edges that are crossed. -/
def crossings (test : Int → Run Bool) (edgeIds : List Int) : Nat :=
  edgeIds.countP fun edgeId => (test edgeId).toOption = some true

section probe

variable {test : ℚ → Int → Run Bool} {ids edgeIds : List Int} {w : Bool} {x : ℚ}

theorem IsGuarded.ok {e : Int} (h : IsGuarded test e) (hfree : ¬ Blocks test x e) :
    ∃ r, test x e = .ok r := by
  obtain ⟨a, b, crosses, htest⟩ := h
  rw [Blocks, htest] at hfree
  rw [htest]
  split_ifs at hfree ⊢ with hclose
  · exact absurd rfl hfree
  · exact ⟨crosses x, rfl⟩

theorem countCrossings_free (hg : ∀ e ∈ edgeIds, IsGuarded test e)
    (hfree : ∀ e ∈ edgeIds, ¬ Blocks test x e) (w : Bool) :
    countCrossings (test x) edgeIds w = .ok (not^[crossings (test x) edgeIds] w, true) := by
  induction edgeIds generalizing w with
  | nil => rfl
  | cons e es ih =>
    obtain ⟨r, hr⟩ := (hg e List.mem_cons_self).ok (hfree e List.mem_cons_self)
    have hrest := ih (fun e he => hg e (List.mem_cons_of_mem _ he))
      (fun e he => hfree e (List.mem_cons_of_mem _ he))
    rw [countCrossings, hr]
    cases r with
    | true =>
      have hcount : crossings (test x) (e :: es) = crossings (test x) es + 1 := by
        simp [crossings, hr, Except.toOption]
      rw [hcount, Function.iterate_succ_apply]
      exact hrest _
    | false =>
      have hcount : crossings (test x) (e :: es) = crossings (test x) es := by
        simp [crossings, hr, Except.toOption]
      rw [hcount]
      exact hrest w

theorem countCrossings_blocked (hg : ∀ e ∈ edgeIds, IsGuarded test e)
    (hblocked : ∃ e ∈ edgeIds, Blocks test x e) (w : Bool) :
    ∃ w', countCrossings (test x) edgeIds w = .ok (w', false) := by
  induction edgeIds generalizing w with
  | nil =>
    obtain ⟨e, he, _⟩ := hblocked
    exact absurd he List.not_mem_nil
  | cons e es ih =>
    by_cases hb : Blocks test x e
    · exact ⟨w, by rw [countCrossings, show test x e = .error .illegalArgument from hb]; rfl⟩
    · obtain ⟨r, hr⟩ := (hg e List.mem_cons_self).ok hb
      have hrest : ∃ e ∈ es, Blocks test x e := by
        obtain ⟨e', he', hb'⟩ := hblocked
        rcases List.mem_cons.mp he' with rfl | he'
        · exact absurd hb' hb
        · exact ⟨e', he', hb'⟩
      obtain ⟨w', hw'⟩ := ih (fun e he => hg e (List.mem_cons_of_mem _ he)) hrest
        (if r then !w else w)
      refine ⟨w', ?_⟩
      rw [countCrossings, hr]
      cases r with
      | true => exact hw'
      | false => exact hw'

/-- The iterations that are left when `k` more coordinates are blocked. -/
theorem probes_end (hg : ∀ e ∈ edgeIds, IsGuarded test e) (w : Bool) :
    ∀ (k fuel : Nat) (x : ℚ), k + 1 ≤ fuel →
      (∀ j < k, ∃ e ∈ edgeIds, Blocks test (x + (j : Nat) * (1 / 1000000)) e) →
      (∀ e ∈ edgeIds, ¬ Blocks test (x + (k : Nat) * (1 / 1000000)) e) →
      whileLoop mustRetry (probeStep test edgeIds w) fuel
          { coordinate := x, inWater := w, noException := false }
        = .ok {
          coordinate := x + (k : Nat) * (1 / 1000000)
          inWater := not^[crossings (test (x + (k : Nat) * (1 / 1000000))) edgeIds] w
          noException := true } := by
  intro k
  induction k with
  | zero =>
    intro fuel x hfuel _ hfree
    obtain ⟨fuel, rfl⟩ : ∃ m, fuel = m + 1 := ⟨fuel - 1, by omega⟩
    simp only [Nat.cast_zero, zero_mul, add_zero] at hfree ⊢
    have hstep : probeStep test edgeIds w { coordinate := x, inWater := w, noException := false }
        = .ok { coordinate := x, inWater := not^[crossings (test x) edgeIds] w
                noException := true } := by
      simp [probeStep, countCrossings_free hg hfree w]
    rw [whileLoop_of_true (c := mustRetry) rfl hstep]
    exact whileLoop_of_false (c := mustRetry) rfl fuel
  | succ k ih =>
    intro fuel x hfuel hblocked hfree
    obtain ⟨fuel, rfl⟩ : ∃ m, fuel = m + 1 := ⟨fuel - 1, by omega⟩
    have hfirst := hblocked 0 (Nat.succ_pos k)
    simp only [Nat.cast_zero, zero_mul, add_zero] at hfirst
    obtain ⟨w', hw'⟩ := countCrossings_blocked hg hfirst w
    have hstep : probeStep test edgeIds w { coordinate := x, inWater := w, noException := false }
        = .ok { coordinate := x + 1 / 1000000, inWater := w, noException := false } := by
      simp [probeStep, hw']
    have hshift : ∀ j : Nat, x + 1 / 1000000 + (j : ℚ) * (1 / 1000000)
        = x + ((j + 1 : Nat) : ℚ) * (1 / 1000000) := by
      intro j
      push_cast
      ring
    rw [whileLoop_of_true (c := mustRetry) rfl hstep, ih fuel (x + 1 / 1000000) (by omega)]
    · rw [hshift]
    · intro j hj
      rw [hshift]
      exact hblocked (j + 1) (by omega)
    · rw [hshift]
      exact hfree

/-- The coordinate with which a retry loop ends, after `k` retries. -/
structure Settles (test : ℚ → Int → Run Bool) (ids : List Int) (x : ℚ) (k : Nat) : Prop where
  retries : k ≤ 2 * ids.length
  blocked : ∀ j < k, ∃ e ∈ ids, Blocks test (x + (j : Nat) * (1 / 1000000)) e
  free : ∀ e ∈ ids, ¬ Blocks test (x + (k : Nat) * (1 / 1000000)) e

/-- A retry loop ends at the first coordinate that no edge blocks. -/
theorem Settles.unique {k m : Nat} (h : Settles test ids x k) (h' : Settles test ids x m) :
    k = m := by
  apply le_antisymm
  · apply not_lt.mp
    intro hlt
    obtain ⟨e, he, hb⟩ := h.blocked m hlt
    exact h'.free e he hb
  · apply not_lt.mp
    intro hlt
    obtain ⟨e, he, hb⟩ := h'.blocked k hlt
    exact h.free e he hb

theorem exists_settles (hg : ∀ e ∈ ids, IsGuarded test e) (x : ℚ) : ∃ k, Settles test ids x k := by
  classical
  have hends : ∃ ends : Int → ℚ × ℚ, ∀ e ∈ ids, ∀ y, Blocks test y e →
      |(ends e).1 - y| ≤ 1 / 10000000 ∨ |(ends e).2 - y| ≤ 1 / 10000000 := by
    have hex : ∀ e, ∃ p : ℚ × ℚ, e ∈ ids → ∀ y, Blocks test y e →
        |p.1 - y| ≤ 1 / 10000000 ∨ |p.2 - y| ≤ 1 / 10000000 := by
      intro e
      by_cases he : e ∈ ids
      · obtain ⟨a, b, crosses, htest⟩ := hg e he
        refine ⟨(a, b), fun _ y hb => ?_⟩
        rw [Blocks, htest] at hb
        split_ifs at hb with hclose
        exact hclose
      · exact ⟨(0, 0), fun h => absurd h he⟩
    choose ends hends using hex
    exact ⟨ends, hends⟩
  obtain ⟨ends, hends⟩ := hends
  obtain ⟨k, hk, hfar⟩ := exists_free (ids.flatMap fun e => [(ends e).1, (ends e).2]) x
    (by norm_num : (2 : ℚ) * (1 / 10000000) < 1 / 1000000)
  have hlen : (ids.flatMap fun e => [(ends e).1, (ends e).2]).length = 2 * ids.length := by
    rw [List.length_flatMap]
    simp [Nat.mul_comm]
  have hfree : ∃ k : Nat, ∀ e ∈ ids, ¬ Blocks test (x + (k : Nat) * (1 / 1000000)) e := by
    refine ⟨k, ?_⟩
    intro e he hb
    rcases hends e he _ hb with hclose | hclose
    · exact hfar _ (List.mem_flatMap.mpr ⟨e, he, by simp⟩) hclose
    · exact hfar _ (List.mem_flatMap.mpr ⟨e, he, by simp⟩) hclose
  refine ⟨Nat.find hfree, ?_, ?_, Nat.find_spec hfree⟩
  · refine le_trans (Nat.find_min' hfree (m := k) ?_) (by omega)
    intro e he hb
    rcases hends e he _ hb with hclose | hclose
    · exact hfar _ (List.mem_flatMap.mpr ⟨e, he, by simp⟩) hclose
    · exact hfar _ (List.mem_flatMap.mpr ⟨e, he, by simp⟩) hclose
  · intro j hj
    have := Nat.find_min hfree hj
    push Not at this
    exact this

/-- A retry loop ends after `k` retries, whatever the order of the edges is. -/
theorem probeLoop_eq {k : Nat} (hg : ∀ e ∈ ids, IsGuarded test e) (hk : Settles test ids x k)
    (hperm : edgeIds.Perm ids) {fuel : Nat} (hfuel : k ≤ fuel) (w : Bool) :
    probeLoop fuel test edgeIds w x = .ok (x + (k : Nat) * (1 / 1000000),
      not^[crossings (test (x + (k : Nat) * (1 / 1000000))) ids] w) := by
  have hmem : ∀ e, e ∈ edgeIds ↔ e ∈ ids := fun e => hperm.mem_iff
  have hg' : ∀ e ∈ edgeIds, IsGuarded test e := fun e he => hg e ((hmem e).mp he)
  have hcount : ∀ y, crossings (test y) edgeIds = crossings (test y) ids :=
    fun y => hperm.countP_eq _
  have hblocked : ∀ j < k, ∃ e ∈ edgeIds, Blocks test (x + (j : Nat) * (1 / 1000000)) e := by
    intro j hj
    obtain ⟨e, he, hb⟩ := hk.blocked j hj
    exact ⟨e, (hmem e).mpr he, hb⟩
  have hfree : ∀ e ∈ edgeIds, ¬ Blocks test (x + (k : Nat) * (1 / 1000000)) e :=
    fun e he => hk.free e ((hmem e).mp he)
  unfold probeLoop
  cases k with
  | zero =>
    simp only [Nat.cast_zero, zero_mul, add_zero] at hfree ⊢
    have hstep : probeStep test edgeIds w { coordinate := x, inWater := w, noException := true }
        = .ok { coordinate := x, inWater := not^[crossings (test x) edgeIds] w
                noException := true } := by
      simp [probeStep, countCrossings_free hg' hfree w]
    rw [hstep, ok_bind, whileLoop_of_false (c := mustRetry) rfl, ok_bind, hcount]
    rfl
  | succ k =>
    have hfirst := hblocked 0 (Nat.succ_pos k)
    simp only [Nat.cast_zero, zero_mul, add_zero] at hfirst
    obtain ⟨w', hw'⟩ := countCrossings_blocked hg' hfirst w
    have hstep : probeStep test edgeIds w { coordinate := x, inWater := w, noException := true }
        = .ok { coordinate := x + 1 / 1000000, inWater := w, noException := false } := by
      simp [probeStep, hw']
    have hshift : ∀ j : Nat, x + 1 / 1000000 + (j : ℚ) * (1 / 1000000)
        = x + ((j + 1 : Nat) : ℚ) * (1 / 1000000) := by
      intro j
      push_cast
      ring
    rw [hstep, ok_bind, probes_end hg' w k fuel (x + 1 / 1000000) hfuel, ok_bind]
    · rw [hshift, hcount]
      rfl
    · intro j hj
      rw [hshift]
      exact hblocked (j + 1) (by omega)
    · rw [hshift]
      exact hfree

end probe

/-! ## The tests of the edges -/

section tests

variable {I : IntersectionHelper} {c : CoastlineWays ℚ} {e : Int}

theorem fuzzyEquals_or {a b x t : ℚ} :
    (Utils.fuzzyEquals a x t || Utils.fuzzyEquals b x t) = true ↔ |a - x| ≤ t ∨ |b - x| ≤ t := by
  simp [Utils.fuzzyEquals]

theorem latitudeTest_guarded (h : c.IsEdge e) (lonValStart lonValDest : ℚ) :
    IsGuarded (latitudeTest I c lonValStart lonValDest) e := by
  obtain ⟨p, q, h1, h2, h3, h4⟩ := h
  refine ⟨p.lat, q.lat,
    fun x => I.crossesLatitude p.lat p.lon q.lat q.lon x lonValStart lonValDest, ?_⟩
  intro x
  simp only [latitudeTest, h1, h2, h3, h4, ok_bind, IntersectionHelper.crossesLatitudeWithException,
    fuzzyEquals_or]
  split_ifs <;> rfl

theorem arcTest_guarded (h : c.IsEdge e) (latSource lonSource latDest : ℚ) :
    IsGuarded (arcTest I c latSource lonSource latDest) e := by
  obtain ⟨p, q, h1, h2, h3, h4⟩ := h
  refine ⟨p.lon, q.lon,
    fun x => I.arcsIntersect p.lat p.lon q.lat q.lon latSource lonSource latDest x, ?_⟩
  intro x
  simp only [arcTest, h1, h2, h3, h4, ok_bind, IntersectionHelper.arcsIntersectWithException,
    fuzzyEquals_or]
  split_ifs <;> rfl

end tests

/-! ## A whole tree -/

namespace GridCell

theorem mem_getAllContainedEdgeIDs {p : GridParent} {cells : Fin 3 → Fin 3 → GridCell} {e : Int} :
    e ∈ (GridCell.parent p cells).getAllContainedEdgeIDs ↔
      ∃ i j, e ∈ (cells i j).getAllContainedEdgeIDs := by
  simp only [getAllContainedEdgeIDs, List.finRange_succ, List.finRange_zero, List.map_nil,
    List.map_cons, List.foldl_cons, List.foldl_nil, List.mem_union_iff, List.not_mem_nil, or_false,
    Fin.exists_fin_succ, Fin.exists_fin_zero]
  tauto

/-- The two cells have the same edges and borders. -/
inductive SameEdges : GridCell → GridCell → Prop
  | leaf {l l' : GridLeaf} (h : l'.edgeIds = l.edgeIds) : SameEdges (.leaf l) (.leaf l')
  | parent {p p' : GridParent} {cells cells' : Fin 3 → Fin 3 → GridCell} (hbox : p'.box = p.box)
      (hlat : p'.innerLatBorders = p.innerLatBorders)
      (hlon : p'.innerLonBorders = p.innerLonBorders)
      (h : ∀ i j, SameEdges (cells i j) (cells' i j)) :
      SameEdges (.parent p cells) (.parent p' cells')

theorem SameEdges.ids {cell cell' : GridCell} (h : SameEdges cell cell') :
    cell'.getAllContainedEdgeIDs = cell.getAllContainedEdgeIDs := by
  induction h with
  | leaf h => rw [getAllContainedEdgeIDs, getAllContainedEdgeIDs, h]
  | parent _ _ _ _ ih =>
    rw [getAllContainedEdgeIDs, getAllContainedEdgeIDs]
    simp only [ih]

theorem SameEdges.assigned {c : CoastlineWays ℚ} {cell cell' : GridCell} (h : SameEdges cell cell')
    {b : Box} (ha : cell.Assigned c b) : cell'.Assigned c b := by
  induction h generalizing b with
  | leaf h =>
    intro e he
    rw [h]
    exact ha e he
  | @parent p p' _ _ hbox hlat hlon _ ih =>
    have hlower : ∀ i j, p'.lowerBox i j = p.lowerBox i j := by
      intro i j
      simp only [GridParent.lowerBox, GridParent.lowerLevelLat, GridParent.lowerLevelLon, hbox,
        hlat, hlon]
    obtain ⟨hb, ho, hcells⟩ := ha
    refine ⟨hbox.trans hb, ?_, ?_⟩
    · constructor
      · rw [hbox, hlat]; exact ho.lat₁
      · rw [hlat]; exact ho.lat₂
      · rw [hbox, hlat]; exact ho.lat₃
      · rw [hbox, hlon]; exact ho.lon₁
      · rw [hlon]; exact ho.lon₂
      · rw [hbox, hlon]; exact ho.lon₃
    · intro i j
      rw [hlower]
      exact ih i j (hcells i j)

section keep

variable {I : IntersectionHelper} {c : CoastlineWays ℚ} {entryOrder : List Int → List Int}
  {fuel : Nat}

/-- `init` changes only the center points of the cell. -/
def Keeps (cell : GridCell) (init : InitCenterPoint) : Prop :=
  ∀ lat lon w ids dir r, init lat lon w ids dir = .ok r → SameEdges cell r.1

theorem initColumn_keeps {south north middle : GridCell} {initSouth initNorth : InitCenterPoint}
    (hs : Keeps south initSouth) (hn : Keeps north initNorth) {w : Bool} {ids : List Int}
    {r : GridCell × GridCell}
    (h : GridParent.initColumn initSouth initNorth middle w ids = .ok r) :
    SameEdges south r.1 ∧ SameEdges north r.2 := by
  simp only [GridParent.initColumn, bind_eq_ok, pure_eq_ok, Except.ok.injEq] at h
  obtain ⟨r₁, h₁, r₂, h₂, rfl⟩ := h
  exact ⟨hs _ _ _ _ _ _ h₁, hn _ _ _ _ _ _ h₂⟩

theorem parent_setCenterPoint_keeps {p : GridParent} {cells : Fin 3 → Fin 3 → GridCell}
    {setMiddle : ℚ → ℚ → Bool → Run GridCell} {init : Fin 3 → Fin 3 → InitCenterPoint}
    (hset : ∀ lat lon w cell', setMiddle lat lon w = .ok cell' → SameEdges (cells 1 1) cell')
    (hinit : ∀ i j, Keeps (cells i j) (init i j)) {lat lon : ℚ} {w : Bool} {cell' : GridCell}
    (h : GridParent.setCenterPoint setMiddle init p cells lat lon w = .ok cell') :
    SameEdges (.parent p cells) cell' := by
  simp only [GridParent.setCenterPoint, bind_eq_ok, pure_eq_ok, Except.ok.injEq] at h
  obtain ⟨middle, hm, west, hw, east, he, col₀, h₀, col₁, h₁, col₂, h₂, rfl⟩ := h
  have hmiddle := hset _ _ _ _ hm
  have hwest := hinit 1 0 _ _ _ _ _ _ hw
  have heast := hinit 1 2 _ _ _ _ _ _ he
  obtain ⟨hs₀, hn₀⟩ := initColumn_keeps (hinit 0 0) (hinit 2 0) h₀
  obtain ⟨hs₁, hn₁⟩ := initColumn_keeps (hinit 0 1) (hinit 2 1) h₁
  obtain ⟨hs₂, hn₂⟩ := initColumn_keeps (hinit 0 2) (hinit 2 2) h₂
  refine .parent rfl rfl rfl ?_
  intro i j
  fin_cases i <;> fin_cases j <;> assumption

/-- Neither of the two functions changes the edges of a cell. -/
theorem centerPoint_keeps (cell : GridCell) :
    (∀ lat lon w cell', cell.setCenterPoint I c entryOrder fuel lat lon w = .ok cell' →
      SameEdges cell cell') ∧ Keeps cell (cell.initCenterPoint I c entryOrder fuel) := by
  induction cell with
  | leaf l =>
    constructor
    · intro lat lon w cell' h
      obtain rfl : GridCell.leaf (l.setCenterPoint lat lon w) = cell' := by
        simpa [setCenterPoint] using h
      exact .leaf rfl
    · intro lat lon w ids dir r h
      simp only [initCenterPoint, bind_eq_ok, pure_eq_ok, Except.ok.injEq] at h
      obtain ⟨r', hr', rfl⟩ := h
      cases dir with
      | FROM_HORIZONTAL =>
        simp only [GridLeaf.initCenterPoint, bind_eq_ok, pure_eq_ok, Except.ok.injEq] at hr'
        obtain ⟨_, _, rfl⟩ := hr'
        exact .leaf rfl
      | FROM_VERTICAL =>
        simp only [GridLeaf.initCenterPoint, bind_eq_ok, pure_eq_ok, Except.ok.injEq] at hr'
        obtain ⟨_, _, rfl⟩ := hr'
        exact .leaf rfl
  | parent p cells ih =>
    have hset : ∀ {lat lon w cell'}, GridParent.setCenterPoint
        (setCenterPoint I c entryOrder fuel (cells 1 1))
        (fun i j => initCenterPoint I c entryOrder fuel (cells i j)) p cells lat lon w = .ok cell' →
        SameEdges (.parent p cells) cell' :=
      parent_setCenterPoint_keeps (ih 1 1).1 fun i j => (ih i j).2
    constructor
    · intro lat lon w cell' h
      exact hset h
    · intro lat lon w ids dir r h
      rw [initCenterPoint] at h
      cases dir with
      | FROM_HORIZONTAL =>
        simp only [GridParent.initCenterPoint, bind_eq_ok, pure_eq_ok, Except.ok.injEq] at h
        obtain ⟨_, _, cell', hcell', rfl⟩ := h
        exact hset hcell'
      | FROM_VERTICAL =>
        simp only [GridParent.initCenterPoint, bind_eq_ok, pure_eq_ok, Except.ok.injEq] at h
        obtain ⟨_, _, cell', hcell', rfl⟩ := h
        exact hset hcell'

end keep

/-! ## The retry loops of a tree -/

/-- The edges that `initCenterPoint` looks at. -/
def combinedEdgeIds : GridCell → List Int → ApproachDirection → List Int
  | .leaf l, edgeIds, _ => l.edgeIds.foldl (fun s edgeId => s.insert edgeId) edgeIds
  | .parent _ cells, edgeIds, .FROM_HORIZONTAL =>
    (List.finRange 3).foldl (fun s i => (cells 1 i).getAllContainedEdgeIDs ∪ s) edgeIds
  | .parent _ cells, edgeIds, .FROM_VERTICAL =>
    (List.finRange 3).foldl (fun s i => (cells i 1).getAllContainedEdgeIDs ∪ s) edgeIds

/-- The coordinate that `initCenterPoint` shifts. -/
def shiftedCoordinate : GridCell → ℚ → ApproachDirection → ℚ
  | .leaf l, _, .FROM_HORIZONTAL => l.latCenterPoint
  | .leaf l, _, .FROM_VERTICAL => l.lonCenterPoint
  | .parent p _, _, .FROM_HORIZONTAL => p.centerLat
  | .parent _ _, originLon, .FROM_VERTICAL => originLon

/-- The test of an edge in `initCenterPoint`, as a function of that coordinate. -/
def crossingTest (I : IntersectionHelper) (c : CoastlineWays ℚ) :
    GridCell → ℚ → ℚ → ApproachDirection → ℚ → Int → Run Bool
  | .leaf l, _, originLon, .FROM_HORIZONTAL => latitudeTest I c originLon l.lonCenterPoint
  | .leaf l, originLat, originLon, .FROM_VERTICAL => arcTest I c originLat originLon l.latCenterPoint
  | .parent p _, _, originLon, .FROM_HORIZONTAL => latitudeTest I c originLon p.centerLon
  | .parent p _, originLat, _, .FROM_VERTICAL => arcTest I c p.centerLat p.centerLon originLat

/-- The center point after `initCenterPoint` ended with the coordinate `x`. -/
def centerPointAt : GridCell → ApproachDirection → ℚ → ℚ × ℚ
  | .leaf l, .FROM_HORIZONTAL, x => (x, l.lonCenterPoint)
  | .leaf l, .FROM_VERTICAL, x => (l.latCenterPoint, x)
  | .parent p _, .FROM_HORIZONTAL, x => (x, p.centerLon)
  | .parent p _, .FROM_VERTICAL, _ => (p.centerLat, p.centerLon)

/-- With enough fuel the run returns `r`, in whatever order the sets are visited. -/
def Returns {α : Type} (run : (List Int → List Int) → Nat → Run α) (r : α) : Prop :=
  ∃ F, ∀ entryOrder : List Int → List Int, (∀ l, (entryOrder l).Perm l) →
    ∀ fuel, F ≤ fuel → run entryOrder fuel = .ok r

theorem Returns.bind {α β : Type} {f : (List Int → List Int) → Nat → Run α}
    {g : α → (List Int → List Int) → Nat → Run β} {a : α} {b : β} (hf : Returns f a)
    (hg : Returns (g a) b) : Returns (fun o n => f o n >>= fun x => g x o n) b := by
  obtain ⟨F, hF⟩ := hf
  obtain ⟨F', hF'⟩ := hg
  refine ⟨F + F', ?_⟩
  intro entryOrder hperm fuel hfuel
  show f entryOrder fuel >>= _ = _
  rw [hF entryOrder hperm fuel (by omega), ok_bind]
  exact hF' entryOrder hperm fuel (by omega)

theorem Returns.pure {α : Type} (r : α) : Returns (fun _ _ => .ok r) r :=
  ⟨0, fun _ _ _ _ => rfl⟩

section total

variable {I : IntersectionHelper} {c : CoastlineWays ℚ}

/-- All ids are edges. -/
def AllEdges (c : CoastlineWays ℚ) (ids : List Int) : Prop := ∀ e ∈ ids, c.IsEdge e

theorem mem_foldl_insert {ids set : List Int} {e : Int} :
    e ∈ ids.foldl (fun s edgeId => s.insert edgeId) set ↔ e ∈ ids ∨ e ∈ set := by
  induction ids generalizing set with
  | nil => simp
  | cons x xs ih =>
    rw [List.foldl_cons, ih, List.mem_insert_iff, List.mem_cons]
    tauto

theorem mem_foldl_union (f : Fin 3 → List Int) {set : List Int} {e : Int} :
    e ∈ (List.finRange 3).foldl (fun s i => f i ∪ s) set ↔ (∃ i, e ∈ f i) ∨ e ∈ set := by
  simp only [List.finRange_succ, List.finRange_zero, List.map_nil, List.map_cons, List.foldl_cons,
    List.foldl_nil, List.mem_union_iff, Fin.exists_fin_succ, Fin.exists_fin_zero]
  tauto

theorem allEdges_combined {cell : GridCell} {edgeIds : List Int}
    (hcell : AllEdges c cell.getAllContainedEdgeIDs) (hids : AllEdges c edgeIds)
    (dir : ApproachDirection) : AllEdges c (cell.combinedEdgeIds edgeIds dir) := by
  intro e he
  cases cell with
  | leaf l =>
    rcases mem_foldl_insert.mp he with he | he
    · exact hcell e (List.mem_dedup.mpr he)
    · exact hids e he
  | parent p cells =>
    cases dir with
    | FROM_HORIZONTAL =>
      rcases (mem_foldl_union fun i => (cells 1 i).getAllContainedEdgeIDs).mp he with ⟨i, he⟩ | he
      · exact hcell e (mem_getAllContainedEdgeIDs.mpr ⟨1, i, he⟩)
      · exact hids e he
    | FROM_VERTICAL =>
      rcases (mem_foldl_union fun i => (cells i 1).getAllContainedEdgeIDs).mp he with ⟨i, he⟩ | he
      · exact hcell e (mem_getAllContainedEdgeIDs.mpr ⟨i, 1, he⟩)
      · exact hids e he

theorem crossingTest_guarded (cell : GridCell) (originLat originLon : ℚ) (dir : ApproachDirection)
    {e : Int} (h : c.IsEdge e) : IsGuarded (cell.crossingTest I c originLat originLon dir) e := by
  cases cell with
  | leaf l =>
    cases dir with
    | FROM_HORIZONTAL => exact latitudeTest_guarded h _ _
    | FROM_VERTICAL => exact arcTest_guarded h _ _ _
  | parent p cells =>
    cases dir with
    | FROM_HORIZONTAL => exact latitudeTest_guarded h _ _
    | FROM_VERTICAL => exact arcTest_guarded h _ _ _

/-- What `initCenterPoint` returns, with the `k` retries of its loop. -/
structure Inits (I : IntersectionHelper) (c : CoastlineWays ℚ) (cell : GridCell)
    (originLat originLon : ℚ) (originInWater : Bool) (edgeIds : List Int)
    (dir : ApproachDirection) (k : Nat) (x : ℚ) (inWater : Bool) (cell' : GridCell) : Prop where
  settles : Settles (cell.crossingTest I c originLat originLon dir)
    (cell.combinedEdgeIds edgeIds dir) (cell.shiftedCoordinate originLon dir) k
  coordinate : x = cell.shiftedCoordinate originLon dir + k * (1 / 1000000)
  flag : inWater = not^[crossings (cell.crossingTest I c originLat originLon dir x)
    (cell.combinedEdgeIds edgeIds dir)] originInWater
  loop : ∀ entryOrder : List Int → List Int, (∀ l, (entryOrder l).Perm l) → ∀ fuel, k ≤ fuel →
    probeLoop fuel (cell.crossingTest I c originLat originLon dir)
      (entryOrder (cell.combinedEdgeIds edgeIds dir)) originInWater
      (cell.shiftedCoordinate originLon dir) = .ok (x, inWater)
  center : cell'.getCenterPoint = cell.centerPointAt dir x
  returns : Returns (fun entryOrder fuel => cell.initCenterPoint I c entryOrder fuel originLat
    originLon originInWater edgeIds dir) (cell', inWater, cell.combinedEdgeIds edgeIds dir)

/-- The retry loop returns; what `initCenterPoint` does afterwards is left open. -/
theorem exists_inits {cell : GridCell} (hcell : AllEdges c cell.getAllContainedEdgeIDs)
    (originLat originLon : ℚ) (originInWater : Bool) {edgeIds : List Int}
    (hids : AllEdges c edgeIds) (dir : ApproachDirection)
    (hrest : ∀ x inWater,
      (∃ k, ∀ entryOrder : List Int → List Int, (∀ l, (entryOrder l).Perm l) → ∀ fuel, k ≤ fuel →
        probeLoop fuel (cell.crossingTest I c originLat originLon dir)
          (entryOrder (cell.combinedEdgeIds edgeIds dir)) originInWater
          (cell.shiftedCoordinate originLon dir) = .ok (x, inWater)) →
      ∃ cell', cell'.getCenterPoint = cell.centerPointAt dir x ∧
        Returns (fun entryOrder fuel => cell.initCenterPoint I c entryOrder fuel originLat
          originLon originInWater edgeIds dir)
          (cell', inWater, cell.combinedEdgeIds edgeIds dir)) :
    ∃ k x inWater cell',
      Inits I c cell originLat originLon originInWater edgeIds dir k x inWater cell' := by
  have hg : ∀ e ∈ cell.combinedEdgeIds edgeIds dir,
      IsGuarded (cell.crossingTest I c originLat originLon dir) e :=
    fun e he => crossingTest_guarded cell originLat originLon dir
      (allEdges_combined hcell hids dir e he)
  obtain ⟨k, hk⟩ := exists_settles hg (cell.shiftedCoordinate originLon dir)
  have hloop : ∀ entryOrder : List Int → List Int, (∀ l, (entryOrder l).Perm l) →
      ∀ fuel, k ≤ fuel → probeLoop fuel (cell.crossingTest I c originLat originLon dir)
        (entryOrder (cell.combinedEdgeIds edgeIds dir)) originInWater
        (cell.shiftedCoordinate originLon dir) = .ok (_, _) :=
    fun entryOrder hperm fuel hfuel => probeLoop_eq hg hk (hperm _) hfuel originInWater
  obtain ⟨cell', hcenter, hreturns⟩ := hrest _ _ ⟨k, hloop⟩
  exact ⟨k, _, _, cell', hk, rfl, rfl, hloop, hcenter, hreturns⟩

theorem leaf_inits {l : GridLeaf} (hcell : AllEdges c (GridCell.leaf l).getAllContainedEdgeIDs)
    (originLat originLon : ℚ) (originInWater : Bool) {edgeIds : List Int}
    (hids : AllEdges c edgeIds) (dir : ApproachDirection) :
    ∃ k x inWater cell',
      Inits I c (.leaf l) originLat originLon originInWater edgeIds dir k x inWater cell' := by
  apply exists_inits hcell originLat originLon originInWater hids dir
  rintro x inWater ⟨k, hloop⟩
  cases dir with
  | FROM_HORIZONTAL =>
    refine ⟨.leaf { l with latCenterPoint := x, centerPointInWater := inWater }, rfl, k, ?_⟩
    intro entryOrder hperm fuel hfuel
    have hrun := hloop entryOrder hperm fuel hfuel
    simp only [combinedEdgeIds, crossingTest, shiftedCoordinate] at hrun
    simp only [initCenterPoint, GridLeaf.initCenterPoint, hrun, ok_bind, pure_eq_ok]
    rfl
  | FROM_VERTICAL =>
    refine ⟨.leaf { l with lonCenterPoint := x, centerPointInWater := inWater }, rfl, k, ?_⟩
    intro entryOrder hperm fuel hfuel
    have hrun := hloop entryOrder hperm fuel hfuel
    simp only [combinedEdgeIds, crossingTest, shiftedCoordinate] at hrun
    simp only [initCenterPoint, GridLeaf.initCenterPoint, hrun, ok_bind, pure_eq_ok]
    rfl

/-- The two functions return for a cell of the lower level. -/
structure Total (I : IntersectionHelper) (c : CoastlineWays ℚ) (cell : GridCell) : Prop where
  set : ∀ lat lon w, ∃ cell', cell'.getCenterPoint = (lat, lon) ∧
    Returns (fun entryOrder fuel => cell.setCenterPoint I c entryOrder fuel lat lon w) cell'
  init : ∀ lat lon w ids dir, AllEdges c ids → ∃ k x inWater cell',
    Inits I c cell lat lon w ids dir k x inWater cell'

theorem Returns.sameEdges {cell cell' : GridCell} {lat lon : ℚ} {w : Bool}
    (h : Returns (fun entryOrder fuel => cell.setCenterPoint I c entryOrder fuel lat lon w) cell') :
    SameEdges cell cell' := by
  obtain ⟨F, hF⟩ := h
  exact (centerPoint_keeps cell).1 lat lon w cell' (hF id (fun l => List.Perm.refl l) F (le_refl F))

/-- The cells above and below one of the middle row. -/
theorem initColumn_returns {south north : GridCell} (hs : Total I c south) (hn : Total I c north)
    (hsouth : AllEdges c south.getAllContainedEdgeIDs) (middle : GridCell) (w : Bool)
    {ids : List Int} (hids : AllEdges c ids) :
    ∃ r, Returns (fun entryOrder fuel => GridParent.initColumn
      (south.initCenterPoint I c entryOrder fuel) (north.initCenterPoint I c entryOrder fuel)
      middle w ids) r := by
  obtain ⟨_, _, w₁, south', h₁⟩ := hs.init middle.getCtrLat middle.getCtrLon w ids .FROM_VERTICAL hids
  obtain ⟨_, _, w₂, north', h₂⟩ := hn.init middle.getCtrLat middle.getCtrLon w _ .FROM_VERTICAL
    (allEdges_combined hsouth hids .FROM_VERTICAL)
  exact ⟨(south', north'), h₁.returns.bind (h₂.returns.bind (Returns.pure _))⟩

theorem parent_set_returns {p : GridParent} {cells : Fin 3 → Fin 3 → GridCell}
    (hcell : AllEdges c (GridCell.parent p cells).getAllContainedEdgeIDs)
    (h : ∀ i j, Total I c (cells i j)) (lat lon : ℚ) (w : Bool) :
    ∃ cell', cell'.getCenterPoint = (lat, lon) ∧
      Returns (fun entryOrder fuel =>
        (GridCell.parent p cells).setCenterPoint I c entryOrder fuel lat lon w) cell' := by
  have hlower : ∀ i j, AllEdges c (cells i j).getAllContainedEdgeIDs :=
    fun i j e he => hcell e (mem_getAllContainedEdgeIDs.mpr ⟨i, j, he⟩)
  obtain ⟨middle, _, hm⟩ := (h 1 1).set lat lon w
  have hids : AllEdges c middle.getAllContainedEdgeIDs := by
    rw [hm.sameEdges.ids]
    exact hlower 1 1
  obtain ⟨_, _, w₀, west, hw⟩ := (h 1 0).init lat lon w _ .FROM_HORIZONTAL hids
  have hids₁ := allEdges_combined (hlower 1 0) hids .FROM_HORIZONTAL
  obtain ⟨_, _, w₂, east, he⟩ := (h 1 2).init lat lon w _ .FROM_HORIZONTAL hids₁
  have hids₂ := allEdges_combined (hlower 1 2) hids₁ .FROM_HORIZONTAL
  obtain ⟨col₀, h₀⟩ := initColumn_returns (h 0 0) (h 2 0) (hlower 0 0) west w₀ (hlower 1 0)
  obtain ⟨col₁, h₁⟩ := initColumn_returns (h 0 1) (h 2 1) (hlower 0 1) middle w hids₂
  obtain ⟨col₂, h₂⟩ := initColumn_returns (h 0 2) (h 2 2) (hlower 0 2) east w₂ (hlower 1 2)
  refine ⟨.parent { p with centerPointLat := lat, centerPointLon := lon }
    ![![col₀.1, col₁.1, col₂.1], ![west, middle, east], ![col₀.2, col₁.2, col₂.2]], rfl, ?_⟩
  exact hm.bind (hw.returns.bind (he.returns.bind (h₀.bind (h₁.bind (h₂.bind (Returns.pure _))))))

theorem parent_inits {p : GridParent} {cells : Fin 3 → Fin 3 → GridCell}
    (hcell : AllEdges c (GridCell.parent p cells).getAllContainedEdgeIDs)
    (h : ∀ i j, Total I c (cells i j)) (originLat originLon : ℚ) (originInWater : Bool)
    {edgeIds : List Int} (hids : AllEdges c edgeIds) (dir : ApproachDirection) :
    ∃ k x inWater cell',
      Inits I c (.parent p cells) originLat originLon originInWater edgeIds dir k x inWater
        cell' := by
  apply exists_inits hcell originLat originLon originInWater hids dir
  intro x inWater hloop
  have hloop : Returns (fun entryOrder fuel => probeLoop fuel
      ((GridCell.parent p cells).crossingTest I c originLat originLon dir)
      (entryOrder ((GridCell.parent p cells).combinedEdgeIds edgeIds dir)) originInWater
      ((GridCell.parent p cells).shiftedCoordinate originLon dir)) (x, inWater) := hloop
  cases dir with
  | FROM_HORIZONTAL =>
    obtain ⟨cell', hcenter, hset⟩ := parent_set_returns hcell h x p.centerLon inWater
    exact ⟨cell', hcenter, hloop.bind (hset.bind (Returns.pure _))⟩
  | FROM_VERTICAL =>
    obtain ⟨cell', hcenter, hset⟩ := parent_set_returns hcell h p.centerLat p.centerLon inWater
    exact ⟨cell', hcenter, hloop.bind (hset.bind (Returns.pure _))⟩

/-- Both functions return for every tree whose ids are edges. -/
theorem total (cell : GridCell) (hcell : AllEdges c cell.getAllContainedEdgeIDs) :
    Total I c cell := by
  induction cell with
  | leaf l =>
    constructor
    · intro lat lon w
      exact ⟨.leaf (l.setCenterPoint lat lon w), rfl, Returns.pure _⟩
    · intro lat lon w ids dir hids
      exact leaf_inits hcell lat lon w hids dir
  | parent p cells ih =>
    have hlower : ∀ i j, Total I c (cells i j) :=
      fun i j => ih i j fun e he => hcell e (mem_getAllContainedEdgeIDs.mpr ⟨i, j, he⟩)
    constructor
    · intro lat lon w
      exact parent_set_returns hcell hlower lat lon w
    · intro lat lon w ids dir hids
      exact parent_inits hcell hlower lat lon w hids dir

/-- `initCenterPoint` ends after at most two retries for each edge that it looks at.
The flag is that of the origin, flipped for each edge that is crossed at the last
coordinate, and neither of the two depends on the order of the edges. -/
theorem initCenterPoint_spec (I : IntersectionHelper) (c : CoastlineWays ℚ) (cell : GridCell)
    (originLat originLon : ℚ) (originInWater : Bool) (edgeIds : List Int) (dir : ApproachDirection)
    (hcell : AllEdges c cell.getAllContainedEdgeIDs) (hids : AllEdges c edgeIds) :
    ∃ k x inWater cell',
      Inits I c cell originLat originLon originInWater edgeIds dir k x inWater cell' :=
  (total cell hcell).init originLat originLon originInWater edgeIds dir hids

/-- A leaf with two edges, one of which begins at the latitude of its center: the loop ends
after one retry. -/
theorem initCenterPoint_spec_blocked :
    ∃ inWater cell', Inits ⟨fun _ _ _ _ _ _ _ _ => true, fun _ _ _ _ _ _ _ => true⟩
      ⟨[0, 1], [0, 1, 2], [1 / 2, 1, 0]⟩ (.leaf ⟨[0, 1], false, 1 / 2, 1 / 2⟩) (1 / 2) (-1 / 2)
      true [1] .FROM_HORIZONTAL 1 (1 / 2 + 1 / 1000000) inWater cell' := by
  have hedges : AllEdges ⟨[0, 1], [0, 1, 2], [1 / 2, 1, 0]⟩ [0, 1] := by
    intro e he
    cases List.mem_cons.mp he with
    | inl h =>
      rw [h]
      exact ⟨⟨1 / 2, 0⟩, ⟨1, 1⟩, rfl, rfl, rfl, rfl⟩
    | inr h =>
      rw [List.mem_singleton.mp h]
      exact ⟨⟨1, 1⟩, ⟨0, 2⟩, rfl, rfl, rfl, rfl⟩
  obtain ⟨k, x, inWater, cell', h⟩ := initCenterPoint_spec
    ⟨fun _ _ _ _ _ _ _ _ => true, fun _ _ _ _ _ _ _ => true⟩ _
    (.leaf ⟨[0, 1], false, 1 / 2, 1 / 2⟩) (1 / 2) (-1 / 2) true [1] .FROM_HORIZONTAL hedges
    (fun e he => hedges e (List.mem_cons_of_mem 0 he))
  have hids : (GridCell.leaf ⟨[0, 1], false, 1 / 2, 1 / 2⟩).combinedEdgeIds [1] .FROM_HORIZONTAL
      = [0, 1] := by decide
  have hblocked : latitudeTest ⟨fun _ _ _ _ _ _ _ _ => true, fun _ _ _ _ _ _ _ => true⟩
      ⟨[0, 1], [0, 1, 2], [1 / 2, 1, 0]⟩ (-1 / 2) (1 / 2) (1 / 2 + (0 : Nat) * (1 / 1000000)) 0
        = .error .illegalArgument := by decide +kernel
  have hfree : ∀ e ∈ ([0, 1] : List Int), latitudeTest
      ⟨fun _ _ _ _ _ _ _ _ => true, fun _ _ _ _ _ _ _ => true⟩
      ⟨[0, 1], [0, 1, 2], [1 / 2, 1, 0]⟩ (-1 / 2) (1 / 2) (1 / 2 + (1 : Nat) * (1 / 1000000)) e
        ≠ .error .illegalArgument := by decide +kernel
  obtain rfl : k = 1 := by
    apply h.settles.unique
    rw [hids]
    refine ⟨by decide, ?_, hfree⟩
    intro j hj
    obtain rfl : j = 0 := by omega
    exact ⟨0, List.mem_cons_self, hblocked⟩
  have hx : x = 1 / 2 + 1 / 1000000 := by
    rw [h.coordinate]
    simp [shiftedCoordinate]
  rw [hx] at h
  exact ⟨inWater, cell', h⟩

end total

end GridCell

end SeaRouter
