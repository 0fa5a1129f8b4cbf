import SeaRouter.Lib.Rows

/-!
# `coastlinegrid/CoastlineWays.java`

The coastlines arrive as ways, each of them a list of points, and are kept as
edges: two arrays hold the points of all ways, one way behind the other, and an
edge is the index of its start, with the destination at the next one.  A way of
fewer than two points has no edges and leaves no points behind.

`initEdges_spec` says that the arrays are filled to their ends and that the
edges are the neighbouring points of each way, in order.
-/

namespace SeaRouter

open Java

variable {φ : Type}

/-- `importdata/Point.java`, without the id. -/
structure Point (φ : Type) where
  lat : φ
  lon : φ
deriving DecidableEq, Repr

/-- `importdata/CoastlineWay.java`. -/
structure CoastlineWay (φ : Type) where
  points : List (Point φ)

namespace CoastlineWay

def getNumberOfEdges (w : CoastlineWay φ) : Int :=
  if w.points.length ≤ 1 then 0 else w.points.length - 1

def getNumberOfPoints (w : CoastlineWay φ) : Int :=
  if w.points.length ≤ 1 then 0 else w.points.length

end CoastlineWay

/-- The static fields of `CoastlineWays`. -/
structure CoastlineWays (φ : Type) where
  edgePosStart : List Int
  pointLon : List φ
  pointLat : List φ
deriving DecidableEq, Repr

namespace CoastlineWays

/-- The arrays and the variables of the loops of `initEdges`. -/
structure Filling (φ : Type) where
  ways : CoastlineWays φ
  nextEdgeIdx : Int
  nextCoordIdx : Int

/-- One iteration of the loop over the points of a way. -/
def addPoint (currPoints : List (Point φ)) (s : Filling φ) (pointIdx : Int) : Run (Filling φ) := do
  let currPoint ← rd currPoints pointIdx
  let pointLon ← wr s.ways.pointLon s.nextCoordIdx currPoint.lon
  let pointLat ← wr s.ways.pointLat s.nextCoordIdx currPoint.lat
  if pointIdx = currPoints.length - 1 then
    -- the last point is only a destination
    return { s with
      ways := { s.ways with pointLon := pointLon, pointLat := pointLat }
      nextCoordIdx := s.nextCoordIdx + 1 }
  else
    let edgePosStart ← wr s.ways.edgePosStart s.nextEdgeIdx s.nextCoordIdx
    return {
      ways := { edgePosStart := edgePosStart, pointLon := pointLon, pointLat := pointLat }
      nextEdgeIdx := s.nextEdgeIdx + 1, nextCoordIdx := s.nextCoordIdx + 1 }

/-- One iteration of the loop over the ways. -/
def addWay (s : Filling φ) (currCoastlineWay : CoastlineWay φ) : Run (Filling φ) :=
  let currPoints := currCoastlineWay.points
  if currPoints.length ≤ 1 then return s
  else (indices 0 currPoints.length).foldlM (addPoint currPoints) s

def initEdges [Zero φ] (importedCoastlines : List (CoastlineWay φ)) : Run (CoastlineWays φ) := do
  let (numberOfEdges, numberOfCoordinates) := importedCoastlines.foldl
    (fun n w => (n.1 + w.getNumberOfEdges, n.2 + w.getNumberOfPoints)) ((0, 0) : Int × Int)
  let s ← importedCoastlines.foldlM addWay
    { ways := {
        edgePosStart := List.replicate numberOfEdges.toNat 0
        pointLon := List.replicate numberOfCoordinates.toNat (0 : φ)
        pointLat := List.replicate numberOfCoordinates.toNat (0 : φ) }
      nextEdgeIdx := 0, nextCoordIdx := 0 }
  return s.ways

def getNumberOfEdges (c : CoastlineWays φ) : Int := c.edgePosStart.length

def getStartLatByEdgeIdx (c : CoastlineWays φ) (edgeIdx : Int) : Run φ := do
  rd c.pointLat (← rd c.edgePosStart edgeIdx)

def getDestLatByEdgeIdx (c : CoastlineWays φ) (edgeIdx : Int) : Run φ := do
  rd c.pointLat ((← rd c.edgePosStart edgeIdx) + 1)

def getStartLonByEdgeIdx (c : CoastlineWays φ) (edgeIdx : Int) : Run φ := do
  rd c.pointLon (← rd c.edgePosStart edgeIdx)

def getDestLonByEdgeIdx (c : CoastlineWays φ) (edgeIdx : Int) : Run φ := do
  rd c.pointLon ((← rd c.edgePosStart edgeIdx) + 1)

/-- The arrays hold both points of the edge. -/
def IsEdge (c : CoastlineWays φ) (edgeIdx : Int) : Prop :=
  ∃ p q : Point φ, c.getStartLatByEdgeIdx edgeIdx = .ok p.lat ∧
    c.getStartLonByEdgeIdx edgeIdx = .ok p.lon ∧ c.getDestLatByEdgeIdx edgeIdx = .ok q.lat ∧
    c.getDestLonByEdgeIdx edgeIdx = .ok q.lon

/-! ## What the arrays hold -/

/-- The points of the ways that are not ignored. -/
def storedPoints (ways : List (CoastlineWay φ)) : List (Point φ) :=
  ways.flatMap fun w => if w.points.length ≤ 1 then [] else w.points

/-- The start indices of the edges, when the first point has the index `first`. -/
def edgeStarts : Nat → List (CoastlineWay φ) → List Int
  | _, [] => []
  | first, w :: ways =>
    indices first (first + w.getNumberOfEdges) ++
      edgeStarts (first + w.getNumberOfPoints.toNat) ways

/-- The edges of the ways: the neighbouring points of each of them. -/
def wayEdges (ways : List (CoastlineWay φ)) : List (Point φ × Point φ) :=
  ways.flatMap fun w => w.points.zip w.points.tail

theorem storedPoints_append (ways rest : List (CoastlineWay φ)) :
    storedPoints (ways ++ rest) = storedPoints ways ++ storedPoints rest := by
  rw [storedPoints, storedPoints, storedPoints, List.flatMap_append]

theorem length_storedPoints_cons (w : CoastlineWay φ) (ways : List (CoastlineWay φ)) :
    (storedPoints (w :: ways)).length
      = w.getNumberOfPoints.toNat + (storedPoints ways).length := by
  rw [storedPoints, List.flatMap_cons, List.length_append, CoastlineWay.getNumberOfPoints,
    ← storedPoints]
  split_ifs <;> simp

theorem edgeStarts_append (first : Nat) (ways rest : List (CoastlineWay φ)) :
    edgeStarts first (ways ++ rest)
      = edgeStarts first ways ++ edgeStarts (first + (storedPoints ways).length) rest := by
  induction ways generalizing first with
  | nil => rfl
  | cons w ways ih =>
    rw [List.cons_append, edgeStarts, edgeStarts, ih, List.append_assoc,
      length_storedPoints_cons, Nat.add_assoc]

theorem length_wayEdges (first : Nat) (ways : List (CoastlineWay φ)) :
    (edgeStarts first ways).length = (wayEdges ways).length := by
  induction ways generalizing first with
  | nil => rfl
  | cons w ways ih =>
    have hw : (indices first (first + w.getNumberOfEdges)).length
        = (w.points.zip w.points.tail).length := by
      rw [indices, List.length_map, List.length_range, List.length_zip, List.length_tail,
        CoastlineWay.getNumberOfEdges]
      split_ifs <;> omega
    rw [edgeStarts, List.length_append, ih, hw, wayEdges, wayEdges, List.flatMap_cons,
      List.length_append]

/-- The start index of an edge leads to its two points. -/
theorem getElem?_edgeStarts {ways : List (CoastlineWay φ)} (first : Nat) {k : Nat} {p q : Point φ}
    (h : (wayEdges ways)[k]? = some (p, q)) :
    ∃ m : Nat, (edgeStarts first ways)[k]? = some ((first + m : Nat) : Int) ∧
      (storedPoints ways)[m]? = some p ∧ (storedPoints ways)[m + 1]? = some q := by
  induction ways generalizing first k with
  | nil => simp [wayEdges] at h
  | cons w ways ih =>
    have hlen : (indices (first : Int) (first + w.getNumberOfEdges)).length
        = w.points.length - 1 := by
      rw [indices, List.length_map, List.length_range, CoastlineWay.getNumberOfEdges]
      split_ifs <;> omega
    have hzip : (w.points.zip w.points.tail).length = w.points.length - 1 := by
      rw [List.length_zip, List.length_tail]
      omega
    rw [wayEdges, List.flatMap_cons] at h
    rw [edgeStarts, storedPoints, List.flatMap_cons, ← storedPoints]
    by_cases hk : k < w.points.length - 1
    · -- an edge of this way
      rw [List.getElem?_append_left (by omega), List.getElem?_zip_eq_some, List.getElem?_tail] at h
      rw [if_neg (by omega)]
      refine ⟨k, ?_, ?_, ?_⟩
      · rw [List.getElem?_append_left (by omega), indices, List.getElem?_map,
          List.getElem?_range (by rw [indices, List.length_map, List.length_range] at hlen; omega)]
        simp
      · rw [List.getElem?_append_left (by omega)]
        exact h.1
      · rw [List.getElem?_append_left (by omega)]
        exact h.2
    · rw [List.getElem?_append_right (by omega), hzip] at h
      obtain ⟨m, hstart, hp, hq⟩ := ih (first + w.getNumberOfPoints.toNat) h
      have hpoints : (if w.points.length ≤ 1 then [] else w.points).length
          = w.getNumberOfPoints.toNat := by
        rw [CoastlineWay.getNumberOfPoints]
        split_ifs <;> simp
      refine ⟨w.getNumberOfPoints.toNat + m, ?_, ?_, ?_⟩
      · rw [List.getElem?_append_right (by omega), hlen, hstart, Nat.add_assoc]
      · rw [List.getElem?_append_right (by omega), hpoints, Nat.add_sub_cancel_left]
        exact hp
      · rw [List.getElem?_append_right (by omega), hpoints, Nat.add_assoc,
          Nat.add_sub_cancel_left]
        exact hq

/-- The sizes of the arrays. -/
theorem count_foldl (ways : List (CoastlineWay φ)) (first : Nat) (a b : Int) :
    ways.foldl (fun n w => (n.1 + w.getNumberOfEdges, n.2 + w.getNumberOfPoints)) (a, b)
      = (a + (edgeStarts first ways).length, b + (storedPoints ways).length) := by
  induction ways generalizing first a b with
  | nil => simp [edgeStarts, storedPoints]
  | cons w ways ih =>
    have hedges : ((indices (first : Int) (first + w.getNumberOfEdges)).length : Int)
        = w.getNumberOfEdges := by
      rw [indices, List.length_map, List.length_range, CoastlineWay.getNumberOfEdges]
      split_ifs <;> omega
    have hpoints : (w.getNumberOfPoints.toNat : Int) = w.getNumberOfPoints := by
      rw [CoastlineWay.getNumberOfPoints]
      split_ifs <;> omega
    rw [List.foldl_cons, ih (first + w.getNumberOfPoints.toNat), edgeStarts, List.length_append,
      length_storedPoints_cons]
    push_cast
    rw [hedges, hpoints, Int.add_assoc, Int.add_assoc]

/-! ## The loops -/

section loops

variable [Zero φ] {edges coords : Nat} {ps : List (Point φ)} {starts : List Int} {s : Filling φ}

/-- The arrays of `edges` edges and `coords` points hold the points `ps` and the
start indices `starts` so far. -/
structure Filled (edges coords : Nat) (ps : List (Point φ)) (starts : List Int) (s : Filling φ) :
    Prop where
  position : s.ways.edgePosStart = starts ++ List.replicate (edges - starts.length) 0
  lon : s.ways.pointLon = ps.map Point.lon ++ List.replicate (coords - ps.length) 0
  lat : s.ways.pointLat = ps.map Point.lat ++ List.replicate (coords - ps.length) 0
  edge : s.nextEdgeIdx = starts.length
  coord : s.nextCoordIdx = ps.length

/-- The writes of a point into the two coordinate arrays. -/
theorem Filled.point (h : Filled edges coords ps starts s) (hroom : ps.length < coords)
    (p : Point φ) :
    wr s.ways.pointLon s.nextCoordIdx p.lon
        = .ok ((ps ++ [p]).map Point.lon ++ List.replicate (coords - (ps ++ [p]).length) 0) ∧
      wr s.ways.pointLat s.nextCoordIdx p.lat
        = .ok ((ps ++ [p]).map Point.lat ++ List.replicate (coords - (ps ++ [p]).length) 0) := by
  have hfree : coords - ps.length = (coords - (ps ++ [p]).length) + 1 := by
    rw [List.length_append, List.length_singleton]
    omega
  have hwr : ∀ f : Point φ → φ,
      wr (ps.map f ++ List.replicate (coords - ps.length) 0) ps.length (f p)
        = .ok ((ps ++ [p]).map f ++ List.replicate (coords - (ps ++ [p]).length) 0) := by
    intro f
    have := wr_fill (0 : φ) (f p) (ps.map f) (coords - (ps ++ [p]).length)
    rwa [List.length_map, ← hfree, ← List.map_singleton, ← List.map_append] at this
  rw [h.lon, h.lat, h.coord]
  exact ⟨hwr Point.lon, hwr Point.lat⟩

/-- The write of a start index. -/
theorem Filled.start (h : Filled edges coords ps starts s) (hroom : starts.length < edges) :
    wr s.ways.edgePosStart s.nextEdgeIdx s.nextCoordIdx
      = .ok ((starts ++ [(ps.length : Int)]) ++
          List.replicate (edges - (starts ++ [(ps.length : Int)]).length) 0) := by
  have hfree : edges - starts.length = (edges - (starts ++ [(ps.length : Int)]).length) + 1 := by
    rw [List.length_append, List.length_singleton]
    omega
  rw [h.position, h.edge, h.coord, hfree]
  exact wr_fill 0 (ps.length : Int) starts _

/-- A point of a way; the last one begins no edge. -/
theorem addPoint_spec (h : Filled edges coords ps starts s) {currPoints pre post : List (Point φ)}
    {p : Point φ} (hpoints : currPoints = pre ++ p :: post) (hroom : ps.length < coords)
    (hroom' : post ≠ [] → starts.length < edges) :
    ∃ s', addPoint currPoints s pre.length = .ok s' ∧
      Filled edges coords (ps ++ [p]) (if post = [] then starts else starts ++ [(ps.length : Int)])
        s' := by
  have hlen : currPoints.length = pre.length + post.length + 1 := by
    rw [hpoints, List.length_append, List.length_cons]
    omega
  have hp : rd currPoints (pre.length : Int) = .ok p := by
    rw [hpoints]
    exact rd_append_length pre post p
  have hcoord : s.nextCoordIdx + 1 = ((ps ++ [p]).length : Int) := by
    rw [h.coord, List.length_append, List.length_singleton]
    push_cast
    rfl
  obtain ⟨hlon, hlat⟩ := h.point hroom p
  unfold addPoint
  rw [hp, ok_bind, hlon, ok_bind, hlat, ok_bind]
  by_cases hlast : post = []
  · rw [if_pos (by rw [hlast] at hlen; simp at hlen; omega), if_pos hlast]
    exact ⟨_, rfl, h.position, rfl, rfl, h.edge, hcoord⟩
  · have hpos := List.length_pos_iff.mpr hlast
    rw [if_neg (by omega), if_neg hlast, h.start (hroom' hlast), ok_bind]
    refine ⟨_, rfl, rfl, rfl, rfl, ?_, hcoord⟩
    show s.nextEdgeIdx + 1 = _
    rw [h.edge, List.length_append, List.length_singleton]
    push_cast
    rfl

/-- The points of a way: each of them but the last one begins an edge. -/
theorem addWay_spec (h : Filled edges coords ps starts s) (w : CoastlineWay φ)
    (hcoords : ps.length + w.getNumberOfPoints.toNat ≤ coords)
    (hedges : starts.length + w.getNumberOfEdges.toNat ≤ edges) :
    ∃ s', addWay s w = .ok s' ∧
      Filled edges coords (ps ++ if w.points.length ≤ 1 then [] else w.points)
        (starts ++ indices ps.length (ps.length + w.getNumberOfEdges)) s' := by
  unfold addWay
  rw [CoastlineWay.getNumberOfPoints] at hcoords
  rw [CoastlineWay.getNumberOfEdges] at hedges ⊢
  by_cases hone : w.points.length ≤ 1
  · refine ⟨s, by simp [hone], ?_⟩
    simpa [hone, indices] using h
  · simp only [if_neg hone] at hcoords hedges ⊢
    have hcount : ∀ k : Nat, (indices (ps.length : Int) (ps.length + (k : Int))).length = k := by
      intro k
      rw [indices, List.length_map, List.length_range]
      omega
    obtain ⟨s', hrun, hs'⟩ := foldlM_row (f := addPoint w.points) (l := w.points)
      (P := fun pre s => Filled edges coords (ps ++ pre)
        (starts ++ indices ps.length (ps.length + ((min pre.length (w.points.length - 1) : Nat) : Int)))
        s) 0 (b := s) (by simpa [indices] using h) (by
        intro pre x post s hw hs
        have hlen : w.points.length = pre.length + post.length + 1 := by
          rw [hw, List.length_append, List.length_cons]
          omega
        obtain ⟨s', hstep, hs'⟩ := addPoint_spec hs hw (by rw [List.length_append]; omega) (by
          intro hpost
          have hpos := List.length_pos_iff.mpr hpost
          rw [List.length_append, hcount]
          omega)
        refine ⟨s', by rw [Nat.zero_add]; exact hstep, ?_⟩
        rw [List.append_assoc] at hs'
        by_cases hpost : post = []
        · rw [if_pos hpost] at hs'
          rw [hpost, List.length_nil] at hlen
          rw [show min (pre ++ [x]).length (w.points.length - 1)
            = min pre.length (w.points.length - 1) by simp; omega]
          exact hs'
        · have hpos := List.length_pos_iff.mpr hpost
          rw [if_neg hpost, show min pre.length (w.points.length - 1) = pre.length by omega,
            List.append_assoc, List.length_append, Nat.cast_add, ← indices_succ] at hs'
          rw [show min (pre ++ [x]).length (w.points.length - 1) = pre.length + 1 by simp; omega]
          exact hs')
    refine ⟨s', ?_, ?_⟩
    · rw [Nat.zero_add, Nat.cast_zero] at hrun
      exact hrun
    · have hmin : ((min w.points.length (w.points.length - 1) : Nat) : Int)
          = (w.points.length : Int) - 1 := by omega
      rw [hmin] at hs'
      exact hs'

end loops

/-- `initEdges` fills its arrays to the end, and the edges are the neighbouring
points of each way, in order. -/
theorem initEdges_spec [Zero φ] (ways : List (CoastlineWay φ)) :
    ∃ c, initEdges ways = .ok c ∧ c.edgePosStart = edgeStarts 0 ways ∧
      c.pointLon = (storedPoints ways).map Point.lon ∧
      c.pointLat = (storedPoints ways).map Point.lat ∧
      c.getNumberOfEdges = (wayEdges ways).length ∧
      ∀ (k : Nat) (p q : Point φ), (wayEdges ways)[k]? = some (p, q) →
        c.getStartLatByEdgeIdx k = .ok p.lat ∧ c.getStartLonByEdgeIdx k = .ok p.lon ∧
        c.getDestLatByEdgeIdx k = .ok q.lat ∧ c.getDestLonByEdgeIdx k = .ok q.lon := by
  obtain ⟨s, hrun, hs⟩ := foldlM_spec (f := addWay)
    (P := fun pre s => Filled (edgeStarts 0 ways).length (storedPoints ways).length
      (storedPoints pre) (edgeStarts 0 pre) s) ways
    { ways := {
        edgePosStart := List.replicate (edgeStarts 0 ways).length 0
        pointLon := List.replicate (storedPoints ways).length (0 : φ)
        pointLat := List.replicate (storedPoints ways).length 0 }
      nextEdgeIdx := 0, nextCoordIdx := 0 }
    ⟨rfl, rfl, rfl, rfl, rfl⟩ (by
      intro pre w post s hways hs
      have hsplit : pre ++ w :: post = (pre ++ [w]) ++ post := by simp
      have hone : storedPoints [w] = if w.points.length ≤ 1 then [] else w.points := by
        simp [storedPoints]
      have hlast : edgeStarts (0 + (storedPoints pre).length) [w]
          = indices (storedPoints pre).length
            ((storedPoints pre).length + w.getNumberOfEdges) := by
        simp [edgeStarts]
      have hroom : (storedPoints pre).length + w.getNumberOfPoints.toNat
          ≤ (storedPoints ways).length := by
        rw [hways, storedPoints_append, List.length_append, length_storedPoints_cons]
        omega
      have hroom' : (edgeStarts 0 pre).length + w.getNumberOfEdges.toNat
          ≤ (edgeStarts 0 ways).length := by
        rw [hways, edgeStarts_append, edgeStarts, List.length_append, List.length_append, indices,
          List.length_map, List.length_range]
        omega
      obtain ⟨s', hs', hfilled⟩ := addWay_spec hs w hroom hroom'
      refine ⟨s', hs', ?_⟩
      rw [storedPoints_append, edgeStarts_append, hone, hlast]
      exact hfilled)
  have hstarts : s.ways.edgePosStart = edgeStarts 0 ways := by
    rw [hs.position, Nat.sub_self, List.replicate_zero, List.append_nil]
  have hlon : s.ways.pointLon = (storedPoints ways).map Point.lon := by
    rw [hs.lon, Nat.sub_self, List.replicate_zero, List.append_nil]
  have hlat : s.ways.pointLat = (storedPoints ways).map Point.lat := by
    rw [hs.lat, Nat.sub_self, List.replicate_zero, List.append_nil]
  refine ⟨s.ways, ?_, hstarts, hlon, hlat, ?_, ?_⟩
  · unfold initEdges
    rw [count_foldl ways 0]
    simp only [Int.zero_add, Int.toNat_natCast, hrun, ok_bind, pure_eq_ok]
  · rw [getNumberOfEdges, hstarts, length_wayEdges]
  · intro k p q hk
    obtain ⟨m, hm, hp, hq⟩ := getElem?_edgeStarts 0 hk
    rw [Nat.zero_add] at hm
    have hpos : rd s.ways.edgePosStart (k : Int) = .ok (m : Int) := by
      rw [hstarts]
      exact rd_of_getElem? hm
    have hread : ∀ (f : Point φ → φ) (i : Nat) (x : Point φ), (storedPoints ways)[i]? = some x →
        rd ((storedPoints ways).map f) (i : Int) = .ok (f x) := by
      intro f i x hx
      apply rd_of_getElem?
      rw [List.getElem?_map, hx]
      rfl
    have hsucc : (m : Int) + 1 = ((m + 1 : Nat) : Int) := by push_cast; rfl
    rw [getStartLatByEdgeIdx, getStartLonByEdgeIdx, getDestLatByEdgeIdx, getDestLonByEdgeIdx,
      hpos, hlon, hlat]
    simp only [ok_bind, hsucc]
    exact ⟨hread Point.lat m p hp, hread Point.lon m p hp, hread Point.lat (m + 1) q hq,
      hread Point.lon (m + 1) q hq⟩

end CoastlineWays

end SeaRouter
