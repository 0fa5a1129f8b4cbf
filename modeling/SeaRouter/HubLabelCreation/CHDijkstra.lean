import SeaRouter.HubLabelCreation.DynamicGrid
import SeaRouter.Utils.DistanceHeap

/-!
# `hublablecreation/CHDijkstra.java`

A thread of the contraction.  For each node that it is given it searches from
each neighbour of the node, and where the search reaches another neighbour
over the node it notes a shortcut.  The search keeps its data in five arrays
that are ordered by the ids in `foundIds`; only two of them are reset between
two searches.

This module has the code and, in `Maps`, the finite maps that the arrays hold:
`relaxEdge_spec` says what one edge does to them.  What a whole search finds
is in `WitnessSearch`.
-/

namespace SeaRouter

open Java

/-- One shortcut as the thread notes it: `edgeId1` is the edge into `destId`
and `edgeId2` the one out of `startId`.  The source keeps the five fields in a
row in an `IntArrayList`. -/
structure Shortcut where
  startId : Int
  destId : Int
  distance : Int
  edgeId1 : Int
  edgeId2 : Int
deriving DecidableEq, Repr

/-- The fields of `CHDijkstra`. -/
structure CHDijkstra where
  foundIds : List Int
  foundIdCount : Int
  previousNodes : List Int
  previousEdges : List Int
  distances : List Int
  finalDistance : List Bool
  neighbours : List Int
  initialNode : Int
  shortcuts : List Shortcut
  heap : DistanceHeap
  nodeIdsToCalc : List Int
deriving DecidableEq, Repr

namespace CHDijkstra

def INITIAL_ARRAY_SIZE : Nat := 10

def SIZE_INCREASE : Int := 5

def MULTIPLE_STEP_NUMBER : Nat := 10

/-- `CHDijkstra()`. -/
def new : CHDijkstra where
  foundIds := List.replicate INITIAL_ARRAY_SIZE 0
  foundIdCount := 0
  previousNodes := List.replicate INITIAL_ARRAY_SIZE 0
  previousEdges := List.replicate INITIAL_ARRAY_SIZE 0
  distances := List.replicate INITIAL_ARRAY_SIZE 0
  finalDistance := List.replicate INITIAL_ARRAY_SIZE false
  neighbours := []
  initialNode := 0
  shortcuts := []
  heap := DistanceHeap.newDefault
  nodeIdsToCalc := []

def addNodeId (t : CHDijkstra) (id : Int) : CHDijkstra :=
  { t with nodeIdsToCalc := t.nodeIdsToCalc ++ [id] }

def grow (t : CHDijkstra) : CHDijkstra :=
  { t with
    foundIds := growBy t.foundIds SIZE_INCREASE MAX_VALUE
    distances := growBy t.distances SIZE_INCREASE 0
    finalDistance := growBy t.finalDistance SIZE_INCREASE false
    previousNodes := growBy t.previousNodes SIZE_INCREASE 0
    previousEdges := growBy t.previousEdges SIZE_INCREASE 0 }

/-- `grow()` if the arrays are full. -/
def growIfFull (t : CHDijkstra) : CHDijkstra :=
  if (t.foundIds.length : Int) = t.foundIdCount then grow t else t

def addNodeIfNecessary (t : CHDijkstra) (nodeId : Int) : Run (Int × CHDijkstra) := do
  let nodeIdx ← binarySearch t.foundIds nodeId
  if nodeIdx < 0 then
    -- node has to be added
    let t := growIfFull t
    let nodeIdx := (nodeIdx + 1) * (-1)
    let count := t.foundIdCount
    let foundIds ← shiftInsert t.foundIds nodeIdx count nodeId
    let distances ← shiftInsert t.distances nodeIdx count (-1)
    let finalDistance ← shiftInsert t.finalDistance nodeIdx count false
    -- the previous node and edge of the new id stay whatever they were
    let previousNodes ←
      arraycopy t.previousNodes nodeIdx t.previousNodes (nodeIdx + 1) (count - nodeIdx)
    let previousEdges ←
      arraycopy t.previousEdges nodeIdx t.previousEdges (nodeIdx + 1) (count - nodeIdx)
    return (nodeIdx, { t with
      foundIds, distances, finalDistance, previousNodes, previousEdges
      foundIdCount := count + 1 })
  else return (nodeIdx, t)

/-- The four statements that both branches of `nextStep` share. -/
def setDistance (t : CHDijkstra) (destNodeIdx destNode newDistance nodeId edgeId : Int) :
    Run CHDijkstra := do
  let distances ← wr t.distances destNodeIdx newDistance
  let previousNodes ← wr t.previousNodes destNodeIdx nodeId
  let previousEdges ← wr t.previousEdges destNodeIdx edgeId
  let heap ← t.heap.add destNode newDistance
  return { t with distances, previousNodes, previousEdges, heap }

/-- One iteration of the loop over the edges of `nodeId`. -/
def relaxEdge (E : Edges) (preferredNode nodeId : Int) (t : CHDijkstra) (edgeId : Int) :
    Run CHDijkstra := do
  let destNode ← E.getDest edgeId
  let (destNodeIdx, t) ← addNodeIfNecessary t destNode
  let nodeIdx ← binarySearch t.foundIds nodeId
  let finalDistance ← wr t.finalDistance nodeIdx true
  let t := { t with finalDistance }
  let newDistance := (← rd t.distances nodeIdx) + (← E.getDist edgeId)
  let oldDistance ← rd t.distances destNodeIdx
  if oldDistance = -1 ∨ newDistance < oldDistance then
    setDistance t destNodeIdx destNode newDistance nodeId edgeId
  else if nodeId = preferredNode ∧ newDistance = oldDistance then
    -- in this case we prefer the way over the node to be contracted
    setDistance t destNodeIdx destNode newDistance nodeId edgeId
  else return t

/-- `nextStep(preferredNode)`; the flag is its return value. -/
def nextStep (E : Edges) (D : DynamicGrid) (preferredNode : Int) (t : CHDijkstra) :
    Run (Bool × CHDijkstra) := do
  if t.heap.isEmpty then return (false, t)
  else
    let (nodeId, heap) ← t.heap.getNext
    let edgeCount ← D.getCurrentEdgeCount nodeId
    let edgeIds ← D.getCurrentEdges nodeId
    let edges ← slice edgeIds 0 edgeCount
    let t ← edges.foldlM (relaxEdge E preferredNode nodeId) { t with heap }
    return (true, t)

/-- The loop of `multipleNextSteps` with `left` iterations left. -/
def nextSteps (E : Edges) (D : DynamicGrid) (preferredNode : Int) :
    Nat → CHDijkstra → Run CHDijkstra
  | 0, t => return t
  | left + 1, t => do
    let (more, t) ← nextStep E D preferredNode t
    if more then nextSteps E D preferredNode left t else return t

def multipleNextSteps (E : Edges) (D : DynamicGrid) (preferredNode : Int) (t : CHDijkstra) :
    Run CHDijkstra :=
  nextSteps E D preferredNode MULTIPLE_STEP_NUMBER t

def allNodesFound (t : CHDijkstra) : List Int → Run Bool
  | [] => return true
  | id :: nodes => do
    let idx ← binarySearch t.foundIds id
    if idx < 0 then return false
    else if !(← rd t.finalDistance idx) then return false
    else allNodesFound t nodes

/-- The guard of the loop of `nextCalc`; the heap is looked at only when some
neighbour is still to be found. -/
def searchGuard (t : CHDijkstra) : Run Bool := do
  if ← allNodesFound t t.neighbours then return false else return !t.heap.isEmpty

/-- The arrays with which `nextCalc` begins its search. -/
def startSearch (t : CHDijkstra) (initialNode : Int) (neighbours : List Int) :
    Run CHDijkstra := do
  let foundIds ← wr (List.replicate t.foundIds.length MAX_VALUE) 0 initialNode
  let distances ← wr (List.replicate t.distances.length 0) 0 0
  let heap ← t.heap.reset.add initialNode 0
  return { t with neighbours, initialNode, foundIds, distances, heap, foundIdCount := 1 }

/-- `nextCalc(initialNode, neighbours, preferredNode)`.  A search takes each
node out of the heap at most twice. -/
def nextCalc (E : Edges) (D : DynamicGrid) (t : CHDijkstra) (initialNode : Int)
    (neighbours : List Int) (preferredNode : Int) : Run CHDijkstra := do
  let t ← startSearch t initialNode neighbours
  whileLoop searchGuard (multipleNextSteps E D preferredNode) (2 * D.currentEdgeIds.length) t

/-- One iteration of the loop of `addShortcuts`; `nodeIdx` is the index of
`nodeId`. -/
def addShortcut (nodeId nodeIdx : Int) (t : CHDijkstra) (neighbourId : Int) :
    Run CHDijkstra := do
  let neighbourIdx ← binarySearch t.foundIds neighbourId
  if neighbourId = t.initialNode then return t
  else if (← rd t.previousNodes neighbourIdx) = nodeId then
    -- this means a shortcut exists. This consists of exactly two edges (X-->nodeId-->Y)
    let shortcut : Shortcut :=
      { startId := t.initialNode
        destId := neighbourId
        distance := ← rd t.distances neighbourIdx
        edgeId1 := ← rd t.previousEdges neighbourIdx
        edgeId2 := ← rd t.previousEdges nodeIdx }
    return { t with shortcuts := t.shortcuts ++ [shortcut] }
  else return t

def addShortcuts (t : CHDijkstra) (nodeId : Int) : Run CHDijkstra := do
  let nodeIdx ← binarySearch t.foundIds nodeId
  if nodeIdx < 0 then return t
  else if (← rd t.previousNodes nodeIdx) ≠ t.initialNode then
    -- in this case, no shortcut from the initial node
    return t
  else t.neighbours.foldlM (addShortcut nodeId nodeIdx) t

/-- One iteration of the loop of `run`. -/
def contractNode (E : Edges) (D : DynamicGrid) (t : CHDijkstra) (currentNode : Int) :
    Run CHDijkstra := do
  let edgeCount ← D.getCurrentEdgeCount currentNode
  if edgeCount < 2 then
    -- no need to check further, no shortcut can possibly be made
    return t
  else
    let edges ← D.getCurrentEdges currentNode
    let neighbours ← (← slice edges 0 edgeCount).mapM E.getDest
    neighbours.foldlM (fun t neighbourId => do
      let t ← nextCalc E D t neighbourId neighbours currentNode
      addShortcuts t currentNode) t

def run (E : Edges) (D : DynamicGrid) (t : CHDijkstra) : Run CHDijkstra := do
  let t := { t with shortcuts := [] }
  let t ← t.nodeIdsToCalc.foldlM (contractNode E D) t
  return { t with nodeIdsToCalc := [] }

/-! ## The maps in the arrays -/

/-- The values in the arrays of a search: `xs` are the found ids in order, the
other lists their data. -/
structure Found (t : CHDijkstra) (xs ds : List Int) (fs : List Bool) (pn pe : List Int)
    (free : Nat) : Prop where
  ids : Padded t.foundIds xs free
  dist : ∃ rest, t.distances = ds ++ rest ∧ rest.length = free
  final : ∃ rest, t.finalDistance = fs ++ rest ∧ rest.length = free
  prevNode : ∃ rest, t.previousNodes = pn ++ rest ∧ rest.length = free
  prevEdge : ∃ rest, t.previousEdges = pe ++ rest ∧ rest.length = free
  distLength : ds.length = xs.length
  finalLength : fs.length = xs.length
  prevNodeLength : pn.length = xs.length
  prevEdgeLength : pe.length = xs.length
  count : t.foundIdCount = xs.length

/-- The arrays hold, for the found ids, the distances `D`, the flags `F`, the
previous nodes `PN` and the previous edges `PE`. -/
def Maps (t : CHDijkstra) (D : Int → Option Int) (F : Int → Option Bool)
    (PN PE : Int → Option Int) : Prop :=
  ∃ xs ds fs pn pe free, Found t xs ds fs pn pe free ∧ D = assoc xs ds ∧ F = assoc xs fs ∧
    PN = assoc xs pn ∧ PE = assoc xs pe

/-- The heap is not one of the arrays. -/
theorem Maps.withHeap {t : CHDijkstra} {D : Int → Option Int} {F : Int → Option Bool}
    {PN PE : Int → Option Int} (h : Maps t D F PN PE) (heap : DistanceHeap) :
    Maps { t with heap } D F PN PE := by
  obtain ⟨xs, ds, fs, pn, pe, free, hf, hmaps⟩ := h
  exact ⟨xs, ds, fs, pn, pe, free, ⟨hf.ids, hf.dist, hf.final, hf.prevNode, hf.prevEdge,
    hf.distLength, hf.finalLength, hf.prevNodeLength, hf.prevEdgeLength, hf.count⟩, hmaps⟩

/-- Two searches that differ only in what `Maps` does not see. -/
structure SameSearch (t t' : CHDijkstra) : Prop where
  neighbours : t'.neighbours = t.neighbours
  initialNode : t'.initialNode = t.initialNode
  shortcuts : t'.shortcuts = t.shortcuts
  nodeIds : t'.nodeIdsToCalc = t.nodeIdsToCalc

theorem SameSearch.refl (t : CHDijkstra) : SameSearch t t := ⟨rfl, rfl, rfl, rfl⟩

theorem SameSearch.trans {t t' t'' : CHDijkstra} (h : SameSearch t t') (h' : SameSearch t' t'') :
    SameSearch t t'' :=
  ⟨h'.neighbours.trans h.neighbours, h'.initialNode.trans h.initialNode,
    h'.shortcuts.trans h.shortcuts, h'.nodeIds.trans h.nodeIds⟩

variable {t : CHDijkstra} {xs ds pn pe : List Int} {fs : List Bool} {free : Nat}

theorem Found.search (h : Found t xs ds fs pn pe free) {x : Int} (hx : x ∈ xs) :
    binarySearch t.foundIds x = .ok (encodeRank xs x) :=
  binarySearch_padded h.ids (h.ids.small x hx)

theorem growIfFull_found (h : Found t xs ds fs pn pe free) :
    ∃ free', Found (growIfFull t) xs ds fs pn pe (free' + 1) ∧
      (growIfFull t).heap = t.heap ∧ SameSearch t (growIfFull t) := by
  have hcap : t.foundIds.length = xs.length + free := by rw [h.ids.eq]; simp
  have hcount := h.count
  unfold growIfFull
  split_ifs with hfull
  · obtain rfl : free = 0 := by omega
    have hgrow : ∀ {α : Type} {a vs : List α} (fill : α), (∃ rest, a = vs ++ rest ∧ rest.length = 0) →
        ∃ rest, growBy a SIZE_INCREASE fill = vs ++ rest ∧ rest.length = 4 + 1 := by
      rintro α a vs fill ⟨rest, rfl, hrest⟩
      exact ⟨rest ++ List.replicate 5 fill, by simp [growBy, SIZE_INCREASE], by simp [hrest]⟩
    refine ⟨4, ⟨⟨?_, h.ids.sorted, h.ids.small⟩, hgrow 0 h.dist, hgrow false h.final,
      hgrow 0 h.prevNode, hgrow 0 h.prevEdge, h.distLength, h.finalLength, h.prevNodeLength,
      h.prevEdgeLength, h.count⟩, rfl, ⟨rfl, rfl, rfl, rfl⟩⟩
    simp [grow, growBy, SIZE_INCREASE, h.ids.eq]
  · obtain ⟨k, rfl⟩ : ∃ k, free = k + 1 := ⟨free - 1, by omega⟩
    exact ⟨k, h, rfl, SameSearch.refl t⟩

/-- `addNodeIfNecessary` of an id that is not found yet. -/
theorem addNode_insert (h : Found t xs ds fs pn pe free) {w : Int} (hw : w < MAX_VALUE)
    (hnot : w ∉ xs) :
    ∃ t' y z free', addNodeIfNecessary t w = .ok ((rank xs w : Int), t') ∧
      Found t' (xs.insertIdx (rank xs w) w) (ds.insertIdx (rank xs w) (-1))
        (fs.insertIdx (rank xs w) false) (pn.insertIdx (rank xs w) y)
        (pe.insertIdx (rank xs w) z) free' ∧
      t'.heap = t.heap ∧ SameSearch t t' := by
  obtain ⟨free', hg, hheap, hsame⟩ := growIfFull_found h
  have hle := rank_le_length xs w
  have hsearch : binarySearch t.foundIds w = .ok (-((rank xs w : Int) + 1)) := by
    rw [binarySearch_padded h.ids hw, encodeRank, if_neg hnot]
  generalize hgt : growIfFull t = g at hg hheap hsame
  have hcount := hg.count
  obtain ⟨restD, hd, hrd⟩ := hg.dist
  obtain ⟨restF, hf, hrf⟩ := hg.final
  obtain ⟨restN, hn, hrn⟩ := hg.prevNode
  obtain ⟨restE, he, hre⟩ := hg.prevEdge
  obtain ⟨yd, restD, rfl⟩ := List.exists_cons_of_length_eq_add_one hrd
  obtain ⟨yf, restF, rfl⟩ := List.exists_cons_of_length_eq_add_one hrf
  obtain ⟨yn, restN, rfl⟩ := List.exists_cons_of_length_eq_add_one hrn
  obtain ⟨ye, restE, rfl⟩ := List.exists_cons_of_length_eq_add_one hre
  have hids : shiftInsert g.foundIds (rank xs w) g.foundIdCount w
      = .ok (xs.insertIdx (rank xs w) w ++ List.replicate free' MAX_VALUE) := by
    rw [hg.ids.eq, List.replicate_succ, hcount, shiftInsert_eq _ _ _ hle]
  have hdist : shiftInsert g.distances (rank xs w) g.foundIdCount (-1)
      = .ok (ds.insertIdx (rank xs w) (-1) ++ restD) := by
    rw [hd, hcount, ← hg.distLength, shiftInsert_eq _ _ _ (by rw [hg.distLength]; exact hle)]
  have hfin : shiftInsert g.finalDistance (rank xs w) g.foundIdCount false
      = .ok (fs.insertIdx (rank xs w) false ++ restF) := by
    rw [hf, hcount, ← hg.finalLength, shiftInsert_eq _ _ _ (by rw [hg.finalLength]; exact hle)]
  obtain ⟨y, hpn⟩ := arraycopy_open pn yn restN (n := rank xs w)
    (by rw [hg.prevNodeLength]; exact hle)
  obtain ⟨z, hpe⟩ := arraycopy_open pe ye restE (n := rank xs w)
    (by rw [hg.prevEdgeLength]; exact hle)
  rw [← hn, hg.prevNodeLength, ← hcount] at hpn
  rw [← he, hg.prevEdgeLength, ← hcount] at hpe
  have hlen : ∀ {α : Type} {l : List α} (x : α), l.length = xs.length →
      (l.insertIdx (rank xs w) x).length = (xs.insertIdx (rank xs w) w).length := by
    intro α l x hl
    rw [List.length_insertIdx_of_le_length (by omega), List.length_insertIdx_of_le_length hle, hl]
  refine ⟨{ g with
      foundIds := xs.insertIdx (rank xs w) w ++ List.replicate free' MAX_VALUE
      distances := ds.insertIdx (rank xs w) (-1) ++ restD
      finalDistance := fs.insertIdx (rank xs w) false ++ restF
      previousNodes := pn.insertIdx (rank xs w) y ++ restN
      previousEdges := pe.insertIdx (rank xs w) z ++ restE
      foundIdCount := g.foundIdCount + 1 }, y, z, free', ?_, ⟨hg.ids.insert hw hnot free',
      ⟨restD, rfl, ?_⟩, ⟨restF, rfl, ?_⟩, ⟨restN, rfl, ?_⟩, ⟨restE, rfl, ?_⟩,
      hlen _ hg.distLength, hlen _ hg.finalLength, hlen _ hg.prevNodeLength,
      hlen _ hg.prevEdgeLength, ?_⟩, hheap,
    ⟨hsame.neighbours, hsame.initialNode, hsame.shortcuts, hsame.nodeIds⟩⟩
  · have hidx : (-((rank xs w : Int) + 1) + 1) * (-1) = (rank xs w : Int) := by ring
    unfold addNodeIfNecessary
    rw [hsearch, ok_bind, if_pos (by omega)]
    simp only [hgt, hidx, hids, hdist, hfin, hpn, hpe, ok_bind, pure_eq_ok]
  · simpa using hrd
  · simpa using hrf
  · simpa using hrn
  · simpa using hre
  · simp only [hcount]
    rw [List.length_insertIdx_of_le_length hle]
    push_cast
    rfl

/-- After `addNodeIfNecessary` the id is found, and nothing else has changed. -/
theorem addNodeIfNecessary_spec {D : Int → Option Int} {F : Int → Option Bool}
    {PN PE : Int → Option Int} (h : Maps t D F PN PE) {w : Int} (hw : w < MAX_VALUE) :
    ∃ t' xs ds fs pn pe free, addNodeIfNecessary t w = .ok ((rank xs w : Int), t') ∧
      Found t' xs ds fs pn pe free ∧ w ∈ xs ∧ t'.heap = t.heap ∧ SameSearch t t' ∧
      (∀ x, assoc xs ds x = if x = w then some ((D w).getD (-1)) else D x) ∧
      (∀ x, assoc xs fs x = if x = w then some ((F w).getD false) else F x) ∧
      (∀ x, (x = w → D w ≠ none) → assoc xs pn x = PN x ∧ assoc xs pe x = PE x) := by
  obtain ⟨xs, ds, fs, pn, pe, free, hf, rfl, rfl, rfl, rfl⟩ := h
  by_cases hmem : w ∈ xs
  · refine ⟨t, xs, ds, fs, pn, pe, free, ?_, hf, hmem, rfl, SameSearch.refl t, ?_, ?_,
      fun _ _ => ⟨rfl, rfl⟩⟩
    · unfold addNodeIfNecessary
      rw [hf.search hmem, ok_bind, encodeRank, if_pos hmem, if_neg (by omega)]
      rfl
    · intro x
      obtain ⟨d, hd⟩ := exists_assoc_of_mem hf.distLength hmem
      by_cases hx : x = w
      · rw [if_pos hx, hx, hd]
        rfl
      · rw [if_neg hx]
    · intro x
      obtain ⟨b, hb⟩ := exists_assoc_of_mem hf.finalLength hmem
      by_cases hx : x = w
      · rw [if_pos hx, hx, hb]
        rfl
      · rw [if_neg hx]
  · obtain ⟨t', y, z, free', hrun, hf', hheap, hsame⟩ := addNode_insert hf hw hmem
    refine ⟨t', _, _, _, _, _, free', ?_, hf', ?_, hheap, hsame, ?_, ?_, ?_⟩
    · rw [rank_insertIdx_self]
      exact hrun
    · exact mem_insertIdx_rank.mpr (Or.inl rfl)
    · intro x
      rw [assoc_insertIdx_rank hf.distLength hmem, assoc_of_not_mem hmem]
      rfl
    · intro x
      rw [assoc_insertIdx_rank hf.finalLength hmem, assoc_of_not_mem hmem]
      rfl
    · intro x hx
      have hxw : x ≠ w := fun he => hx he (assoc_of_not_mem hmem)
      rw [assoc_insertIdx_rank hf.prevNodeLength hmem, if_neg hxw,
        assoc_insertIdx_rank hf.prevEdgeLength hmem, if_neg hxw]
      exact ⟨rfl, rfl⟩

theorem setDistance_spec (h : Found t xs ds fs pn pe free) {M : Int → Option Int}
    (hh : DistanceHeap.Holds t.heap M) {w d : Int} (hw : w ∈ xs)
    (hle : ∀ b, M w = some b → d ≤ b) (v e : Int) :
    ∃ t', setDistance t (rank xs w) w d v e = .ok t' ∧
      Found t' xs (ds.set (rank xs w) d) fs (pn.set (rank xs w) v) (pe.set (rank xs w) e) free ∧
      DistanceHeap.Holds t'.heap (fun x => if x = w then some d else M x) ∧ SameSearch t t' := by
  have hs := h.ids.sorted
  obtain ⟨restD, hd, hrd⟩ := h.dist
  obtain ⟨restN, hn, hrn⟩ := h.prevNode
  obtain ⟨restE, he, hre⟩ := h.prevEdge
  obtain ⟨heap', hadd, hholds⟩ := DistanceHeap.add_spec hh (h.ids.small w hw) hle
  have hidx : encodeRank xs w = (rank xs w : Int) := by rw [encodeRank, if_pos hw]
  have hwd : wr (ds ++ restD) _ d = _ := wr_encodeRank hs h.distLength hw d
  have hwn : wr (pn ++ restN) _ v = _ := wr_encodeRank hs h.prevNodeLength hw v
  have hwe : wr (pe ++ restE) _ e = _ := wr_encodeRank hs h.prevEdgeLength hw e
  rw [hidx] at hwd hwn hwe
  refine ⟨{ t with
      distances := ds.set (rank xs w) d ++ restD
      previousNodes := pn.set (rank xs w) v ++ restN
      previousEdges := pe.set (rank xs w) e ++ restE
      heap := heap' }, ?_, ⟨h.ids, ⟨restD, rfl, hrd⟩, h.final, ⟨restN, rfl, hrn⟩,
      ⟨restE, rfl, hre⟩, by rw [List.length_set, h.distLength], h.finalLength,
      by rw [List.length_set, h.prevNodeLength], by rw [List.length_set, h.prevEdgeLength],
      h.count⟩, hholds, ⟨rfl, rfl, rfl, rfl⟩⟩
  unfold setDistance
  simp only [hd, hn, he, hwd, hwn, hwe, hadd, ok_bind, pure_eq_ok]

/-- `relaxEdge` before it compares the distances: `w` is found, and the distance of `v` is
final. -/
theorem relaxEdge_found {D : Int → Option Int} {F : Int → Option Bool}
    {PN PE : Int → Option Int} (h : Maps t D F PN PE) {E : Edges} {v w e d l : Int}
    (hv : D v = some d) (hwv : w ≠ v) (hw : w < MAX_VALUE) (hdest : E.getDest e = .ok w)
    (hdist : E.getDist e = .ok l) (preferred : Int) :
    ∃ t₂ xs ds fs pn pe free, Found t₂ xs ds fs pn pe free ∧ w ∈ xs ∧ t₂.heap = t.heap ∧
      SameSearch t t₂ ∧ (∀ x, assoc xs ds x = if x = w then some ((D w).getD (-1)) else D x) ∧
      (assoc xs fs
        = fun x => if x = v then some true else if x = w then some ((F w).getD false) else F x) ∧
      (∀ x, (x = w → D w ≠ none) → assoc xs pn x = PN x ∧ assoc xs pe x = PE x) ∧
      relaxEdge E preferred v t e =
        if (D w).getD (-1) = -1 ∨ d + l < (D w).getD (-1) then
          setDistance t₂ (rank xs w) w (d + l) v e
        else if v = preferred ∧ d + l = (D w).getD (-1) then
          setDistance t₂ (rank xs w) w (d + l) v e
        else return t₂ := by
  obtain ⟨t₁, xs, ds, fs, pn, pe, free, hadd, hf, hwx, hheap, hsame, hD, hF, hP⟩ :=
    addNodeIfNecessary_spec h hw
  have hs := hf.ids.sorted
  have hvd : assoc xs ds v = some d := by rw [hD, if_neg (Ne.symm hwv), hv]
  have hvx := mem_of_assoc hvd
  have hidxw : encodeRank xs w = (rank xs w : Int) := by rw [encodeRank, if_pos hwx]
  obtain ⟨restD, hrd, _⟩ := hf.dist
  obtain ⟨restF, hrf, hrfl⟩ := hf.final
  have hwf : wr (fs ++ restF) _ true = _ := wr_encodeRank hs hf.finalLength hvx true
  have hrv : rd (ds ++ restD) _ = _ := rd_encodeRank hs hf.distLength hvd
  have hrw : rd (ds ++ restD) (rank xs w : Int) = .ok ((D w).getD (-1)) := by
    rw [← hidxw]
    exact rd_encodeRank hs hf.distLength (by rw [hD, if_pos rfl])
  refine ⟨{ t₁ with finalDistance := fs.set (rank xs v) true ++ restF }, xs, ds,
    fs.set (rank xs v) true, pn, pe, free,
    ⟨hf.ids, hf.dist, ⟨restF, rfl, hrfl⟩, hf.prevNode, hf.prevEdge, hf.distLength,
      by rw [List.length_set, hf.finalLength], hf.prevNodeLength, hf.prevEdgeLength, hf.count⟩,
    hwx, hheap, ⟨hsame.neighbours, hsame.initialNode, hsame.shortcuts, hsame.nodeIds⟩, hD, ?_, hP,
    ?_⟩
  · funext x
    rw [assoc_set_rank hs hf.finalLength hvx, hF]
  · unfold relaxEdge
    simp only [hdest, hadd, ok_bind, hf.search hvx, hrf, hwf, hrd, hrv, hdist, hrw]

/-- The maps after a distance is set. -/
theorem setDistance_maps {D : Int → Option Int} {PN PE M : Int → Option Int}
    (hf : Found t xs ds fs pn pe free) (hh : DistanceHeap.Holds t.heap M) {w b : Int} (hw : w ∈ xs)
    (hD : ∀ x, x ≠ w → assoc xs ds x = D x)
    (hP : ∀ x, x ≠ w → assoc xs pn x = PN x ∧ assoc xs pe x = PE x)
    (hle : ∀ b', M w = some b' → b ≤ b') (v e : Int) :
    ∃ t', setDistance t (rank xs w) w b v e = .ok t' ∧ SameSearch t t' ∧
      Maps t' (fun x => if x = w then some b else D x) (assoc xs fs)
        (fun x => if x = w then some v else PN x) (fun x => if x = w then some e else PE x) ∧
      DistanceHeap.Holds t'.heap (fun x => if x = w then some b else M x) := by
  have hs := hf.ids.sorted
  obtain ⟨t', hrun, hf', hholds, hsame⟩ := setDistance_spec hf hh hw hle v e
  refine ⟨t', hrun, hsame, ⟨xs, _, _, _, _, free, hf', ?_, rfl, ?_, ?_⟩, hholds⟩
  · funext x
    rw [assoc_set_rank hs hf.distLength hw]
    by_cases hx : x = w
    · rw [if_pos hx, if_pos hx]
    · rw [if_neg hx, if_neg hx, hD x hx]
  · funext x
    rw [assoc_set_rank hs hf.prevNodeLength hw]
    by_cases hx : x = w
    · rw [if_pos hx, if_pos hx]
    · rw [if_neg hx, if_neg hx, (hP x hx).1]
  · funext x
    rw [assoc_set_rank hs hf.prevEdgeLength hw]
    by_cases hx : x = w
    · rw [if_pos hx, if_pos hx]
    · rw [if_neg hx, if_neg hx, (hP x hx).2]

/-- What one edge, from `v` at distance `d` to `w`, does to the maps. -/
theorem relaxEdge_spec {D : Int → Option Int} {F : Int → Option Bool}
    {PN PE M : Int → Option Int} (h : Maps t D F PN PE) (hh : DistanceHeap.Holds t.heap M)
    (hMD : ∀ x b, M x = some b → D x = some b) (hnn : ∀ x b, D x = some b → 0 ≤ b)
    {E : Edges} {preferred v w e d l : Int} (hv : D v = some d) (hwv : w ≠ v)
    (hw : w < MAX_VALUE) (hdest : E.getDest e = .ok w) (hdist : E.getDist e = .ok l) :
    ∃ t', relaxEdge E preferred v t e = .ok t' ∧ SameSearch t t' ∧
      ∃ D' PN' PE' M', Maps t' D'
          (fun x => if x = v then some true else if x = w then some ((F w).getD false) else F x)
          PN' PE' ∧ DistanceHeap.Holds t'.heap M' ∧
        (((∀ b, D w = some b → d + l < b) ∧ (D' = fun x => if x = w then some (d + l) else D x) ∧
            (PN' = fun x => if x = w then some v else PN x) ∧
            (PE' = fun x => if x = w then some e else PE x) ∧
            (M' = fun x => if x = w then some (d + l) else M x)) ∨
          (D w = some (d + l) ∧ v = preferred ∧ D' = D ∧
            (PN' = fun x => if x = w then some v else PN x) ∧
            (PE' = fun x => if x = w then some e else PE x) ∧
            (M' = fun x => if x = w then some (d + l) else M x)) ∨
          ∃ b, D w = some b ∧ b ≤ d + l ∧ (v = preferred → b < d + l) ∧
            D' = D ∧ PN' = PN ∧ PE' = PE ∧ M' = M) := by
  obtain ⟨t₂, xs, ds, fs, pn, pe, free, hf, hwx, hheap, hsame, hD, hF, hP, hrun⟩ :=
    relaxEdge_found h hv hwv hw hdest hdist preferred
  have hh₂ : DistanceHeap.Holds t₂.heap M := by
    rw [hheap]
    exact hh
  rw [hrun, ← hF]
  have hset : (∀ b, M w = some b → d + l ≤ b) → ∃ t',
      setDistance t₂ (rank xs w) w (d + l) v e = .ok t' ∧ SameSearch t t' ∧
      Maps t' (fun x => if x = w then some (d + l) else D x) (assoc xs fs)
        (fun x => if x = w then some v else PN x) (fun x => if x = w then some e else PE x) ∧
      DistanceHeap.Holds t'.heap (fun x => if x = w then some (d + l) else M x) := by
    intro hle
    obtain ⟨t', hst, hsame', hmaps, hholds⟩ := setDistance_maps hf hh₂ hwx
      (fun x hx => by rw [hD, if_neg hx]) (fun x hx => hP x fun he => absurd he hx) hle v e
    exact ⟨t', hst, hsame.trans hsame', hmaps, hholds⟩
  cases hDw : D w with
  | none =>
    obtain ⟨t', hst, hsm, hmaps, hholds⟩ := hset (fun b hb => by
      rw [hMD w b hb] at hDw
      simp at hDw)
    refine ⟨t', ?_, hsm, _, _, _, _, hmaps, hholds,
      Or.inl ⟨fun b hb => by simp at hb, rfl, rfl, rfl, rfl⟩⟩
    simp only [Option.getD_none]
    rw [if_pos (Or.inl trivial), hst]
  | some b =>
    have hb0 := hnn w b hDw
    have hMw : ∀ b', M w = some b' → b' = b := by
      intro b' hb'
      have := hMD w b' hb'
      rw [hDw, Option.some.injEq] at this
      exact this.symm
    simp only [Option.getD_some]
    by_cases hlt : d + l < b
    · obtain ⟨t', hst, hsm, hmaps, hholds⟩ := hset (fun b' hb' => by
        have := hMw b' hb'
        omega)
      refine ⟨t', ?_, hsm, _, _, _, _, hmaps, hholds, Or.inl ⟨?_, rfl, rfl, rfl, rfl⟩⟩
      · rw [if_pos (Or.inr hlt), hst]
      · intro b' hb'
        rw [Option.some.injEq] at hb'
        omega
    · rw [if_neg (by omega)]
      by_cases hpref : v = preferred ∧ d + l = b
      · obtain ⟨t', hst, hsm, hmaps, hholds⟩ := hset (fun b' hb' => by
          have := hMw b' hb'
          omega)
        have hDD : (fun x => if x = w then some (d + l) else D x) = D := by
          funext x
          by_cases hx : x = w
          · rw [if_pos hx, hx, hDw, hpref.2]
          · rw [if_neg hx]
        rw [hDD] at hmaps
        refine ⟨t', ?_, hsm, _, _, _, _, hmaps, hholds,
          Or.inr (Or.inl ⟨by rw [hpref.2], hpref.1, rfl, rfl, rfl, rfl⟩)⟩
        rw [if_pos hpref, hst]
      · rw [if_neg hpref]
        have hDD : assoc xs ds = D := by
          funext x
          rw [hD]
          by_cases hx : x = w
          · rw [if_pos hx, hx, hDw]
            rfl
          · rw [if_neg hx]
        have hPP := fun x => hP x fun _ => by rw [hDw]; simp
        refine ⟨t₂, rfl, hsame, D, PN, PE, M, ⟨xs, ds, fs, pn, pe, free, hf, hDD.symm, rfl, ?_, ?_⟩,
          hh₂, Or.inr (Or.inr ⟨b, rfl, by omega, ?_, rfl, rfl, rfl, rfl⟩)⟩
        · funext x
          exact (hPP x).1.symm
        · funext x
          exact (hPP x).2.symm
        · intro hvp
          have : d + l ≠ b := fun hb => hpref ⟨hvp, hb⟩
          omega

end CHDijkstra

end SeaRouter
