import SeaRouter.DijkstraGrid.GridFile

/-!
# `dijkstragrid/GridCreator.java`, `GridNode.java` and `NodeCreateWorkerThread.java`

The grid is created in two phases.  Worker threads walk over the latitudes that
they were given and add the points in water to the list `gridNodes`; then each
node gets an edge to each of its four neighbours that is in the list.  The
coordinates are decimals, on which `BigDecimal` computes exactly, and a
`double` that holds such a decimal is the decimal itself: here both are
rational numbers.  The steps here are the quotients, and those of the program are only
when they are `ShortSteps`: other quotients are rounded there.

* `assignLatitudes_spec`, `run_spec` and `initGridCreator_spec` say which nodes
  the threads add: `gridNodes` is one of the interleavings of their lists, and
  so a permutation of `allNodes`.
* `createGrid_spec` says which edges are added.
* `neighbour_iff` compares the four neighbours with the places of the grid.
  The western neighbour of the last node of a row is looked up at -180, where
  no row has a node, so a row is closed in one direction only:
  `createGrid_symmetric_iff`.
-/

namespace SeaRouter

open Java

/-- A `GridNode`; its id is its place in `gridNodes`. -/
structure GridNode where
  latitude : ℚ
  longitude : ℚ
deriving DecidableEq, Repr

namespace GridNode

/-- `x.remainder(y)`: the quotient is rounded towards zero. -/
def remainder (x y : ℚ) : ℚ := x - y * ((x / y).num.tdiv (x / y).den : Int)

def calcNorthernNode (node : GridNode) (latitudeOffset : ℚ) : Option GridNode :=
  let nLatitude := node.latitude + latitudeOffset
  -- too far north
  if nLatitude > 90 then none else some ⟨nLatitude, node.longitude⟩

def calcSouthernNode (node : GridNode) (latitudeOffset : ℚ) : Option GridNode :=
  let nLatitude := node.latitude - latitudeOffset
  -- too far south
  if nLatitude < -90 then none else some ⟨nLatitude, node.longitude⟩

def calcEasternNode (node : GridNode) (longitudeOffset : ℚ) : GridNode :=
  let nLongitude := node.longitude + longitudeOffset
  let nLongitude := if nLongitude > 180 then -180 + remainder nLongitude 180 else nLongitude
  ⟨node.latitude, nLongitude⟩

def calcWesternNode (node : GridNode) (longitudeOffset : ℚ) : GridNode :=
  let nLongitude := node.longitude - longitudeOffset
  let nLongitude := if nLongitude < -180 then remainder nLongitude 180 else nLongitude
  ⟨node.latitude, nLongitude⟩

end GridNode

namespace GridCreator

/-! ## The model -/

/-- `coordinate_step_latitude`, for the `DIMENSION_LATITUDE`. -/
def coordinateStepLatitude (dimensionLatitude : Nat) : ℚ := 180 / dimensionLatitude

/-- `coordinate_step_longitude`, for the `DIMENSION_LONGITUDE`. -/
def coordinateStepLongitude (dimensionLongitude : Nat) : ℚ := 360 / dimensionLongitude

/-- The steps have at most twelve decimal places.  Then all coordinates of the grid have
at most fifteen digits, so that a `double` tells them apart and `BigDecimal.valueOf` gets
them back from it. -/
def ShortSteps (dimensionLatitude dimensionLongitude : Nat) : Prop :=
  dimensionLatitude ∣ 180 * 10 ^ 12 ∧ dimensionLongitude ∣ 360 * 10 ^ 12

instance (dimensionLatitude dimensionLongitude : Nat) :
    Decidable (ShortSteps dimensionLatitude dimensionLongitude) :=
  inferInstanceAs (Decidable (_ ∧ _))

/-- The latitude, the number of latitudes so far and the latitudes of the
threads. -/
abbrev Assignment := ℚ × Nat × List (List ℚ)

/-- The loop that assigns the latitudes to the threads in turn. -/
def assignLatitudes (dimensionLatitude numberOfThreads fuel : Nat) : Run (List (List ℚ)) := do
  let (_, _, threads) ← whileLoop
    (fun state : Assignment => return state.1 ≥ -90)
    (fun state : Assignment => return (state.1 - coordinateStepLatitude dimensionLatitude,
      state.2.1 + 1,
      state.2.2.modify (state.2.1 % numberOfThreads) (fun latList => latList ++ [state.1])))
    fuel (90, 0, List.replicate numberOfThreads [])
  return threads

/-- One row of `NodeCreateWorkerThread.run()`. -/
def runRow (pointInWater : ℚ → ℚ → Bool) (dimensionLongitude fuel : Nat) (nodes : List GridNode)
    (lat : ℚ) : Run (List GridNode) := do
  let (_, nodes) ← whileLoop
    (fun state : ℚ × List GridNode => return state.1 > -180)
    (fun state : ℚ × List GridNode => return (
      state.1 - coordinateStepLongitude dimensionLongitude,
      if pointInWater lat state.1 then state.2 ++ [⟨lat, state.1⟩] else state.2))
    fuel (180, nodes)
  return nodes

/-- `NodeCreateWorkerThread.run()`: the nodes that the thread adds, in order. -/
def run (pointInWater : ℚ → ℚ → Bool) (dimensionLongitude fuel : Nat) (latList : List ℚ) :
    Run (List GridNode) :=
  latList.foldlM (runRow pointInWater dimensionLongitude fuel) []

/-- `initGridCreator()`: what each of the threads adds.  They run at the same
time, so `gridNodes` is an interleaving of these lists. -/
def initGridCreator (pointInWater : ℚ → ℚ → Bool)
    (dimensionLatitude dimensionLongitude numberOfThreads fuel : Nat) :
    Run (List (List GridNode)) := do
  let threads ← assignLatitudes dimensionLatitude numberOfThreads fuel
  threads.mapM (run pointInWater dimensionLongitude fuel)

/-- The type of `coordinateNodeStore`, with the ids of the nodes. -/
abbrev NodeStore := HashMap ℚ (HashMap ℚ Int)

/-- `putIfAbsent` of the row and `put` of the node. -/
def putNode (gridNodes : List GridNode) (store : NodeStore) (id : Int) : Run NodeStore := do
  let node ← rd gridNodes id
  let store := if store.containsKey node.latitude then store else store.put node.latitude []
  let row ← store.get node.latitude
  return store.put node.latitude (row.put node.longitude id)

/-- The content of `coordinateNodeStore` after all nodes were added. -/
def coordinateNodeStore (gridNodes : List GridNode) : Run NodeStore :=
  (indices 0 gridNodes.length).foldlM (putNode gridNodes) []

def getNodeByLatLong (store : NodeStore) (node : GridNode) : Option Int :=
  (do (← store.get node.latitude).get node.longitude).toOption

/-- The existing neighbours of a node, in the order east, west, north, south. -/
def neighbourNodes (store : NodeStore) (stepLatitude stepLongitude : ℚ) (currNode : GridNode) :
    List (Option Int) :=
  [getNodeByLatLong store (currNode.calcEasternNode stepLongitude),
    getNodeByLatLong store (currNode.calcWesternNode stepLongitude),
    (currNode.calcNorthernNode stepLatitude).bind (getNodeByLatLong store),
    (currNode.calcSouthernNode stepLatitude).bind (getNodeByLatLong store)]

/-- The edge to a neighbour, if there is one. -/
def addEdge (getDistance : GridNode → GridNode → Int) (gridNodes : List GridNode) (nodeIdx : Int)
    (currNode : GridNode) (edges : List TmpEdge) (neighbour : Option Int) :
    Run (List TmpEdge) := do
  match neighbour with
  | none => return edges
  | some id =>
    let node ← rd gridNodes id
    return edges ++ [⟨nodeIdx, id, getDistance currNode node⟩]

/-- The edges of one node; the three lists of the source are one list here. -/
def addEdges (getDistance : GridNode → GridNode → Int) (gridNodes : List GridNode)
    (store : NodeStore) (stepLatitude stepLongitude : ℚ) (edges : List TmpEdge) (nodeIdx : Int) :
    Run (List TmpEdge) := do
  let currNode ← rd gridNodes nodeIdx
  (neighbourNodes store stepLatitude stepLongitude currNode).foldlM
    (addEdge getDistance gridNodes nodeIdx currNode) edges

/-- `createGrid()` after the threads have filled `gridNodes`: the arrays of
`Node`, and the edges. -/
def createGrid (getDistance : GridNode → GridNode → Int)
    (dimensionLatitude dimensionLongitude : Nat) (gridNodes : List GridNode) :
    Run (Node ℚ × List TmpEdge) := do
  let store ← coordinateNodeStore gridNodes
  let edges ← (indices 0 gridNodes.length).foldlM (addEdges getDistance gridNodes store
    (coordinateStepLatitude dimensionLatitude) (coordinateStepLongitude dimensionLongitude)) []
  return (⟨gridNodes.map GridNode.latitude, gridNodes.map GridNode.longitude⟩, edges)

/-! ## The places of the grid -/

variable {dimLat dimLong T : Nat}

/-- The latitude of a row. -/
def latAt (dimLat j : Nat) : ℚ := 90 - j * coordinateStepLatitude dimLat

/-- The longitude of a place in a row. -/
def longAt (dimLong k : Nat) : ℚ := 180 - k * coordinateStepLongitude dimLong

/-- The multiples of a positive step. -/
theorem mul_step_le {c : ℚ} (hc : 0 < c) {dim : Nat} (hdim : 0 < dim) (j : Nat) :
    (j : ℚ) * (c / dim) ≤ c ↔ j ≤ dim := by
  have hd : (0 : ℚ) < dim := by exact_mod_cast hdim
  rw [← mul_div_assoc, div_le_iff₀ hd, mul_comm, mul_le_mul_iff_right₀ hc]
  exact_mod_cast Iff.rfl

theorem latAt_le (hdim : 0 < dimLat) (j : Nat) : -90 ≤ latAt dimLat j ↔ j ≤ dimLat := by
  rw [← mul_step_le (by norm_num : (0 : ℚ) < 180) hdim j, latAt, coordinateStepLatitude]
  constructor
  · intro h
    linarith
  · intro h
    linarith

theorem longAt_gt (hdim : 0 < dimLong) (k : Nat) : -180 < longAt dimLong k ↔ k < dimLong := by
  have hd : (0 : ℚ) < dimLong := by exact_mod_cast hdim
  have hlt : (k : ℚ) * (360 / dimLong) < 360 ↔ k < dimLong := by
    rw [← mul_div_assoc, div_lt_iff₀ hd, mul_comm, mul_lt_mul_iff_right₀ (by norm_num)]
    exact_mod_cast Iff.rfl
  rw [← hlt, longAt, coordinateStepLongitude]
  constructor
  · intro h
    linarith
  · intro h
    linarith

theorem step_pos {c : ℚ} (hc : 0 < c) {dim : Nat} (hdim : 0 < dim) : 0 < c / dim := by
  have hd : (0 : ℚ) < dim := by exact_mod_cast hdim
  exact div_pos hc hd

theorem latAt_inj (hdim : 0 < dimLat) {i j : Nat} (h : latAt dimLat i = latAt dimLat j) : i = j := by
  have hpos := step_pos (by norm_num : (0 : ℚ) < 180) hdim
  have hmul : (i : ℚ) * coordinateStepLatitude dimLat = j * coordinateStepLatitude dimLat := by
    simp only [latAt] at h
    linarith
  have := mul_right_cancel₀ (ne_of_gt hpos) hmul
  exact_mod_cast this

theorem longAt_inj (hdim : 0 < dimLong) {i j : Nat} (h : longAt dimLong i = longAt dimLong j) :
    i = j := by
  have hpos := step_pos (by norm_num : (0 : ℚ) < 360) hdim
  have hmul : (i : ℚ) * coordinateStepLongitude dimLong = j * coordinateStepLongitude dimLong := by
    simp only [longAt] at h
    linarith
  have := mul_right_cancel₀ (ne_of_gt hpos) hmul
  exact_mod_cast this

theorem latAt_succ (j : Nat) :
    latAt dimLat (j + 1) = latAt dimLat j - coordinateStepLatitude dimLat := by
  simp only [latAt]
  push_cast
  ring

theorem longAt_succ (k : Nat) :
    longAt dimLong (k + 1) = longAt dimLong k - coordinateStepLongitude dimLong := by
  simp only [longAt]
  push_cast
  ring

/-- One step past the last place of a row. -/
theorem longAt_dim (hdim : 0 < dimLong) : longAt dimLong dimLong = -180 := by
  have hd : (dimLong : ℚ) ≠ 0 := by
    have : (0 : ℚ) < dimLong := by exact_mod_cast hdim
    exact ne_of_gt this
  rw [longAt, coordinateStepLongitude, mul_div_cancel₀ _ hd]
  norm_num

theorem longAt_last (hdim : 0 < dimLong) :
    longAt dimLong (dimLong - 1) = -180 + coordinateStepLongitude dimLong := by
  have hsucc : longAt dimLong (dimLong - 1 + 1)
      = longAt dimLong (dimLong - 1) - coordinateStepLongitude dimLong := longAt_succ _
  rw [show dimLong - 1 + 1 = dimLong by omega, longAt_dim hdim] at hsucc
  linarith

theorem longAt_zero (dimLong : Nat) : longAt dimLong 0 = 180 := by simp [longAt]

/-! ## The nodes -/

/-- The nodes of one row. -/
def rowNodes (pointInWater : ℚ → ℚ → Bool) (dimLong : Nat) (lat : ℚ) : List GridNode :=
  ((List.range dimLong).map fun k => (⟨lat, longAt dimLong k⟩ : GridNode)).filter
    fun node => pointInWater node.latitude node.longitude

/-- The nodes of all rows, from north to south. -/
def allNodes (pointInWater : ℚ → ℚ → Bool) (dimLat dimLong : Nat) : List GridNode :=
  ((List.range (dimLat + 1)).map (latAt dimLat)).flatMap (rowNodes pointInWater dimLong)

variable {pointInWater : ℚ → ℚ → Bool}

theorem mem_allNodes {node : GridNode} : node ∈ allNodes pointInWater dimLat dimLong ↔
    ∃ j k, j ≤ dimLat ∧ k < dimLong ∧ node = ⟨latAt dimLat j, longAt dimLong k⟩ ∧
      pointInWater (latAt dimLat j) (longAt dimLong k) = true := by
  simp only [allNodes, rowNodes, List.mem_flatMap, List.mem_map, List.mem_range, List.mem_filter]
  constructor
  · rintro ⟨lat, ⟨j, hj, rfl⟩, ⟨k, hk, rfl⟩, hwater⟩
    exact ⟨j, k, by omega, hk, rfl, hwater⟩
  · rintro ⟨j, k, hj, hk, rfl, hwater⟩
    exact ⟨latAt dimLat j, ⟨j, by omega, rfl⟩, ⟨k, hk, rfl⟩, hwater⟩

theorem nodup_allNodes (hlat : 0 < dimLat) (hlong : 0 < dimLong) :
    (allNodes pointInWater dimLat dimLong).Nodup := by
  rw [allNodes, List.nodup_flatMap]
  constructor
  · intro lat _
    apply List.Nodup.filter
    apply List.Nodup.map _ List.nodup_range
    intro a b hab
    exact longAt_inj hlong (GridNode.mk.inj hab).2
  · rw [List.pairwise_map]
    apply List.nodup_range.imp
    intro a b hab node ha hb
    simp only [rowNodes, List.mem_filter, List.mem_map] at ha hb
    obtain ⟨⟨k, _, rfl⟩, _⟩ := ha
    obtain ⟨⟨l, _, hl⟩, _⟩ := hb
    exact hab (latAt_inj hlat (GridNode.mk.inj hl).1.symm)

theorem modify_flatten_perm {α : Type} (x : α) :
    ∀ (ls : List (List α)) (i : Nat), i < ls.length →
      (ls.modify i (fun l => l ++ [x])).flatten.Perm (ls.flatten ++ [x]) := by
  intro ls
  induction ls with
  | nil =>
    intro i hi
    exact absurd hi (Nat.not_lt_zero i)
  | cons l ls ih =>
    intro i hi
    cases i with
    | zero =>
      simp only [List.modify_zero_cons, List.flatten_cons, List.append_assoc]
      exact List.perm_append_comm.append_left l
    | succ i =>
      simp only [List.modify_succ_cons, List.flatten_cons, List.append_assoc]
      exact (ih i (by simpa using hi)).append_left l

theorem assignLatitudes_spec (hdim : 0 < dimLat) (hT : 0 < T) {fuel : Nat}
    (hfuel : dimLat + 1 ≤ fuel) :
    ∃ threads, assignLatitudes dimLat T fuel = .ok threads ∧
      threads.flatten.Perm ((List.range (dimLat + 1)).map (latAt dimLat)) := by
  obtain ⟨⟨lat, count, threads⟩, k, hrun, ⟨j, hj, hlat, hlen, hperm⟩, hend⟩ := whileLoop_bounded
    (c := fun state : Assignment => return state.1 ≥ -90)
    (f := fun state : Assignment => return (state.1 - coordinateStepLatitude dimLat,
      state.2.1 + 1, state.2.2.modify (state.2.1 % T) (fun latList => latList ++ [state.1])))
    (I := fun k state => ∃ j, j + k = dimLat + 1 ∧ state.1 = latAt dimLat j ∧
      state.2.2.length = T ∧ state.2.2.flatten.Perm ((List.range j).map (latAt dimLat)))
    (fun k state _ => ⟨_, rfl⟩) (by
      rintro k ⟨lat, count, threads⟩ ⟨j, hj, rfl, hlen, hperm⟩ hguard
      have hle : j ≤ dimLat := by
        rw [← latAt_le hdim]
        simpa using hguard
      refine ⟨_, dimLat - j, rfl, ⟨j + 1, by omega, (latAt_succ j).symm, ?_, ?_⟩, by omega⟩
      · simp only [List.length_modify]
        exact hlen
      · simp only at hlen hperm ⊢
        have hlt : count % T < threads.length := by
          rw [hlen]
          exact Nat.mod_lt count hT
        rw [List.range_succ, List.map_append]
        exact (modify_flatten_perm _ threads _ hlt).trans (hperm.append_right _))
    fuel (dimLat + 1) (90, 0, List.replicate T []) ⟨0, by omega, by simp [latAt], by simp, by simp⟩
    hfuel
  have hlast : j = dimLat + 1 := by
    have hnot : ¬ j ≤ dimLat := by
      rw [← latAt_le hdim, ← hlat]
      simpa using hend
    omega
  refine ⟨threads, ?_, hlast ▸ hperm⟩
  rw [assignLatitudes, hrun]
  rfl

theorem runRow_spec (hdim : 0 < dimLong) {fuel : Nat} (hfuel : dimLong ≤ fuel)
    (nodes : List GridNode) (lat : ℚ) :
    runRow pointInWater dimLong fuel nodes lat
      = .ok (nodes ++ rowNodes pointInWater dimLong lat) := by
  obtain ⟨⟨long, nodes'⟩, k, hrun, ⟨j, hj, hlong, hnodes⟩, hend⟩ := whileLoop_bounded
    (c := fun state : ℚ × List GridNode => return state.1 > -180)
    (f := fun state : ℚ × List GridNode => return (state.1 - coordinateStepLongitude dimLong,
      if pointInWater lat state.1 then state.2 ++ [⟨lat, state.1⟩] else state.2))
    (I := fun k state => ∃ j, j + k = dimLong ∧ state.1 = longAt dimLong j ∧
      state.2 = nodes ++ ((List.range j).map fun k => (⟨lat, longAt dimLong k⟩ : GridNode)).filter
        fun node => pointInWater node.latitude node.longitude)
    (fun k state _ => ⟨_, rfl⟩) (by
      rintro k ⟨long, nodes'⟩ ⟨j, hj, rfl, hnodes⟩ hguard
      have hlt : j < dimLong := by
        rw [← longAt_gt hdim]
        simpa using hguard
      refine ⟨_, dimLong - (j + 1), rfl, ⟨j + 1, by omega, (longAt_succ j).symm, ?_⟩, by omega⟩
      simp only at hnodes ⊢
      rw [hnodes, List.range_succ, List.map_append, List.filter_append]
      by_cases hwater : pointInWater lat (longAt dimLong j) = true
      · simp [hwater]
      · simp [hwater])
    fuel dimLong (180, nodes) ⟨0, by omega, by simp [longAt], by simp⟩ hfuel
  have hlast : j = dimLong := by
    have hnot : ¬ j < dimLong := by
      rw [← longAt_gt hdim, ← hlong]
      simpa using hend
    omega
  subst hlast
  simp only at hnodes
  rw [runRow, hrun, ok_bind, hnodes]
  rfl

theorem run_spec (hdim : 0 < dimLong) {fuel : Nat} (hfuel : dimLong ≤ fuel) (latList : List ℚ) :
    run pointInWater dimLong fuel latList
      = .ok (latList.flatMap (rowNodes pointInWater dimLong)) := by
  obtain ⟨nodes, hrun, hnodes⟩ := foldlM_spec (f := runRow pointInWater dimLong fuel)
    (P := fun pre nodes => nodes = pre.flatMap (rowNodes pointInWater dimLong)) latList [] rfl (by
      rintro pre lat post nodes _ rfl
      exact ⟨_, runRow_spec hdim hfuel _ lat, by simp⟩)
  rw [run, hrun, hnodes]

/-- The threads add every node once. -/
theorem initGridCreator_spec (pointInWater : ℚ → ℚ → Bool) (hlat : 0 < dimLat)
    (hlong : 0 < dimLong) (hT : 0 < T) {fuel : Nat} (hfuel : max (dimLat + 1) dimLong ≤ fuel) :
    ∃ workers, initGridCreator pointInWater dimLat dimLong T fuel = .ok workers ∧
      workers.flatten.Perm (allNodes pointInWater dimLat dimLong) := by
  obtain ⟨threads, hrun, hperm⟩ := assignLatitudes_spec hlat hT (le_trans (le_max_left _ _) hfuel)
  have hworkers := mapM_eq_ok (f := run pointInWater dimLong fuel) threads
    (fun latList _ => run_spec hlong (le_trans (le_max_right _ _) hfuel) latList)
  refine ⟨_, by rw [initGridCreator, hrun, ok_bind, hworkers], ?_⟩
  have hflat : ∀ ls : List (List ℚ), (ls.map fun l => l.flatMap
      (rowNodes pointInWater dimLong)).flatten = ls.flatten.flatMap (rowNodes pointInWater dimLong) := by
    intro ls
    induction ls with
    | nil => rfl
    | cons l ls ih => rw [List.map_cons, List.flatten_cons, List.flatten_cons, List.flatMap_append, ih]
  rw [hflat]
  exact hperm.flatMap_right _

/-! ## The edges -/

variable {gridNodes : List GridNode}

/-- The store answers with the places of the first `k` nodes. -/
def StoreHolds (gridNodes : List GridNode) (k : Nat) (store : NodeStore) : Prop :=
  ∀ (node : GridNode) (id : Int), getNodeByLatLong store node = some id ↔
    0 ≤ id ∧ id < k ∧ gridNodes[id.toNat]? = some node

theorem getNodeByLatLong_eq_some {store : NodeStore} {node : GridNode} {id : Int} :
    getNodeByLatLong store node = some id ↔
      ∃ row, store.get node.latitude = .ok row ∧ row.get node.longitude = .ok id := by
  unfold getNodeByLatLong
  cases hrow : store.get node.latitude with
  | error e => simp [Except.toOption]
  | ok row =>
    rw [ok_bind]
    cases hid : row.get node.longitude with
    | error e => simp [Except.toOption, hid]
    | ok id' => simp [Except.toOption, hid]

/-- The store after one more node. -/
theorem getNodeByLatLong_put (store : NodeStore) {node : GridNode} {id : Int}
    (hnode : rd gridNodes id = .ok node) :
    ∃ store', putNode gridNodes store id = .ok store' ∧ ∀ other,
      getNodeByLatLong store' other
        = if other = node then some id else getNodeByLatLong store other := by
  -- the row of the node, which is empty if it is new
  obtain ⟨store₁, hstore₁, row, hrow, hsame⟩ : ∃ store₁ : NodeStore,
      (if store.containsKey node.latitude then store else store.put node.latitude []) = store₁ ∧
      ∃ row, store₁.get node.latitude = .ok row ∧
        ∀ other, getNodeByLatLong store₁ other = getNodeByLatLong store other := by
    by_cases hc : store.containsKey node.latitude = true
    · refine ⟨store, if_pos hc, ?_⟩
      cases hget : store.get node.latitude with
      | ok row => exact ⟨row, rfl, fun _ => rfl⟩
      | error e =>
        exfalso
        exact HashMap.get_ne_error (HashMap.containsKey_iff.mp hc) hget
    · refine ⟨store.put node.latitude [], if_neg hc, [], by rw [HashMap.get_put, if_pos rfl], ?_⟩
      intro other
      have hnot : node.latitude ∉ store.keys := fun h => hc (HashMap.containsKey_iff.mpr h)
      simp only [getNodeByLatLong, HashMap.get_put]
      by_cases hl : other.latitude = node.latitude
      · rw [if_pos hl, hl, HashMap.get_of_not_mem hnot]
        rfl
      · rw [if_neg hl]
  refine ⟨store₁.put node.latitude (row.put node.longitude id), ?_, ?_⟩
  · simp only [putNode, hnode, ok_bind, hstore₁, hrow, pure_eq_ok]
  · intro other
    rw [← hsame]
    simp only [getNodeByLatLong, HashMap.get_put]
    by_cases hl : other.latitude = node.latitude
    · rw [if_pos hl, ok_bind, HashMap.get_put, hl, hrow, ok_bind]
      by_cases hg : other.longitude = node.longitude
      · obtain rfl : other = node := by
          cases other
          cases node
          simp only at hl hg
          rw [hl, hg]
        rw [if_pos rfl, if_pos rfl]
        rfl
      · rw [if_neg hg, if_neg (fun h => hg (by rw [h]))]
    · rw [if_neg hl, if_neg (fun h => hl (by rw [h]))]

theorem coordinateNodeStore_spec (hnodup : gridNodes.Nodup) :
    ∃ store, coordinateNodeStore gridNodes = .ok store ∧
      StoreHolds gridNodes gridNodes.length store := by
  exact foldlM_indices (f := putNode gridNodes) (P := fun k store => StoreHolds gridNodes k store)
    (Nat.zero_le gridNodes.length) (b := []) (by
      intro node id
      constructor
      · intro h
        obtain ⟨row, hrow, _⟩ := getNodeByLatLong_eq_some.mp h
        exact absurd hrow (by simp [HashMap.get])
      · rintro ⟨h0, h1, _⟩
        exact absurd h1 (by omega)) (by
      intro k store _ hk hstore
      have hget := List.getElem?_eq_getElem hk
      obtain ⟨store', hrun, hput⟩ := getNodeByLatLong_put store (rd_of_getElem? hget)
      refine ⟨store', hrun, ?_⟩
      intro node id
      rw [hput]
      split_ifs with hnode
      · subst hnode
        rw [Option.some.injEq]
        constructor
        · rintro rfl
          exact ⟨by omega, by omega, by rw [Int.toNat_natCast]; exact hget⟩
        · rintro ⟨h0, _, hid⟩
          have := (List.getElem?_inj (by omega) hnodup).mp (hget.trans hid.symm)
          omega
      · rw [hstore]
        constructor
        · rintro ⟨h0, h1, hid⟩
          exact ⟨h0, by omega, hid⟩
        · rintro ⟨h0, h1, hid⟩
          refine ⟨h0, ?_, hid⟩
          by_contra hge
          obtain rfl : id = (k : Int) := by push_cast at h1; omega
          rw [Int.toNat_natCast, hget, Option.some.injEq] at hid
          exact hnode hid.symm)

/-- The node `b` is one of the four neighbours of `a`. -/
def Neighbour (dimLat dimLong : Nat) (a b : GridNode) : Prop :=
  b = a.calcEasternNode (coordinateStepLongitude dimLong) ∨
  b = a.calcWesternNode (coordinateStepLongitude dimLong) ∨
  a.calcNorthernNode (coordinateStepLatitude dimLat) = some b ∨
  a.calcSouthernNode (coordinateStepLatitude dimLat) = some b

theorem mem_neighbourNodes {store : NodeStore} (hstore : StoreHolds gridNodes gridNodes.length store)
    {a : GridNode} {id : Int} :
    some id ∈ neighbourNodes store (coordinateStepLatitude dimLat)
        (coordinateStepLongitude dimLong) a ↔
      0 ≤ id ∧ ∃ b, gridNodes[id.toNat]? = some b ∧ Neighbour dimLat dimLong a b := by
  have hfind : ∀ b, getNodeByLatLong store b = some id ↔ 0 ≤ id ∧ gridNodes[id.toNat]? = some b := by
    intro b
    rw [hstore]
    constructor
    · rintro ⟨h0, _, hid⟩
      exact ⟨h0, hid⟩
    · rintro ⟨h0, hid⟩
      have := (List.getElem?_eq_some_iff.mp hid).1
      exact ⟨h0, by omega, hid⟩
  simp only [neighbourNodes, List.mem_cons, List.not_mem_nil, or_false, eq_comm (a := some id),
    hfind, Option.bind_eq_some_iff, Neighbour]
  constructor
  · rintro (⟨h0, h⟩ | ⟨h0, h⟩ | ⟨b, hb, h0, h⟩ | ⟨b, hb, h0, h⟩)
    · exact ⟨h0, _, h, Or.inl rfl⟩
    · exact ⟨h0, _, h, Or.inr (Or.inl rfl)⟩
    · exact ⟨h0, b, h, Or.inr (Or.inr (Or.inl hb))⟩
    · exact ⟨h0, b, h, Or.inr (Or.inr (Or.inr hb))⟩
  · rintro ⟨h0, b, h, rfl | rfl | hb | hb⟩
    · exact Or.inl ⟨h0, h⟩
    · exact Or.inr (Or.inl ⟨h0, h⟩)
    · exact Or.inr (Or.inr (Or.inl ⟨b, hb, h0, h⟩))
    · exact Or.inr (Or.inr (Or.inr ⟨b, hb, h0, h⟩))

/-- The edges that are added: one from each node to each of its neighbours that
is a node. -/
def HasEdges (getDistance : GridNode → GridNode → Int) (dimLat dimLong : Nat)
    (gridNodes : List GridNode) (k : Nat) (edges : List TmpEdge) : Prop :=
  ∀ e, e ∈ edges ↔ ∃ (i j : Nat) (a b : GridNode), i < k ∧ gridNodes[i]? = some a ∧
    gridNodes[j]? = some b ∧ Neighbour dimLat dimLong a b ∧ e = ⟨i, j, getDistance a b⟩

variable {getDistance : GridNode → GridNode → Int}

theorem addEdges_spec {store : NodeStore} (hstore : StoreHolds gridNodes gridNodes.length store)
    {k : Nat} {a : GridNode} (ha : gridNodes[k]? = some a) (edges : List TmpEdge) :
    ∃ edges', addEdges getDistance gridNodes store (coordinateStepLatitude dimLat)
        (coordinateStepLongitude dimLong) edges k = .ok edges' ∧
      ∀ e, e ∈ edges' ↔ e ∈ edges ∨ ∃ (j : Nat) (b : GridNode), gridNodes[j]? = some b ∧
        Neighbour dimLat dimLong a b ∧ e = ⟨k, j, getDistance a b⟩ := by
  have hmem : ∀ id : Int, some id ∈ neighbourNodes store (coordinateStepLatitude dimLat)
        (coordinateStepLongitude dimLong) a ↔
      0 ≤ id ∧ ∃ b, gridNodes[id.toNat]? = some b ∧ Neighbour dimLat dimLong a b :=
    fun id => mem_neighbourNodes hstore
  obtain ⟨edges', hrun, hedges⟩ := foldlM_spec (f := addEdge getDistance gridNodes k a)
    (P := fun pre edges' => ∀ e, e ∈ edges' ↔ e ∈ edges ∨ ∃ (j : Nat) (b : GridNode),
      some (j : Int) ∈ pre ∧ gridNodes[j]? = some b ∧ e = ⟨k, j, getDistance a b⟩)
    (neighbourNodes store (coordinateStepLatitude dimLat) (coordinateStepLongitude dimLong) a)
    edges (by simp) (by
      intro pre x post edges₁ hsplit hedges₁
      cases x with
      | none =>
        refine ⟨edges₁, rfl, ?_⟩
        intro e
        rw [hedges₁]
        simp
      | some id =>
        obtain ⟨h0, b, hb, _⟩ := (hmem id).mp (by rw [hsplit]; simp)
        obtain ⟨j, rfl⟩ : ∃ j : Nat, id = (j : Int) := ⟨id.toNat, by omega⟩
        rw [Int.toNat_natCast] at hb
        refine ⟨edges₁ ++ [⟨k, j, getDistance a b⟩], ?_, ?_⟩
        · simp only [addEdge, rd_of_getElem? hb, ok_bind, pure_eq_ok]
        · intro e
          rw [List.mem_append, hedges₁, List.mem_singleton]
          constructor
          · rintro ((he | ⟨j', b', hj', hb', rfl⟩) | rfl)
            · exact Or.inl he
            · exact Or.inr ⟨j', b', List.mem_append_left _ hj', hb', rfl⟩
            · exact Or.inr ⟨j, b, List.mem_append_right _ (List.mem_singleton_self _), hb, rfl⟩
          · rintro (he | ⟨j', b', hj', hb', rfl⟩)
            · exact Or.inl (Or.inl he)
            · rcases List.mem_append.mp hj' with hj' | hj'
              · exact Or.inl (Or.inr ⟨j', b', hj', hb', rfl⟩)
              · rw [List.mem_singleton, Option.some.injEq, Nat.cast_inj] at hj'
                subst hj'
                rw [hb, Option.some.injEq] at hb'
                rw [hb']
                exact Or.inr rfl)
  refine ⟨edges', ?_, ?_⟩
  · rw [addEdges, rd_of_getElem? ha, ok_bind, hrun]
  · intro e
    rw [hedges]
    constructor
    · rintro (he | ⟨j, b, hj, hb, rfl⟩)
      · exact Or.inl he
      · obtain ⟨_, b', hb', hn⟩ := (hmem j).mp hj
        rw [Int.toNat_natCast, hb, Option.some.injEq] at hb'
        exact Or.inr ⟨j, b, hb, hb' ▸ hn, rfl⟩
    · rintro (he | ⟨j, b, hb, hn, rfl⟩)
      · exact Or.inl he
      · exact Or.inr ⟨j, b, (hmem j).mpr ⟨by omega, b, by rw [Int.toNat_natCast]; exact hb, hn⟩,
          hb, rfl⟩

theorem createGrid_spec (getDistance : GridNode → GridNode → Int) (dimLat dimLong : Nat)
    (hnodup : gridNodes.Nodup) :
    ∃ edges, createGrid getDistance dimLat dimLong gridNodes
        = .ok (⟨gridNodes.map GridNode.latitude, gridNodes.map GridNode.longitude⟩, edges) ∧
      HasEdges getDistance dimLat dimLong gridNodes gridNodes.length edges := by
  obtain ⟨store, hrun, hstore⟩ := coordinateNodeStore_spec hnodup
  obtain ⟨edges, hedges, hhas⟩ := foldlM_indices
    (f := addEdges getDistance gridNodes store (coordinateStepLatitude dimLat)
      (coordinateStepLongitude dimLong))
    (P := fun k edges => HasEdges getDistance dimLat dimLong gridNodes k edges)
    (Nat.zero_le gridNodes.length) (b := []) (by
      intro e
      constructor
      · intro he
        exact absurd he List.not_mem_nil
      · rintro ⟨i, _, _, _, hi, _⟩
        exact absurd hi (Nat.not_lt_zero i)) (by
      intro k edges _ hk hhas
      obtain ⟨edges', hrun, hedges'⟩ := addEdges_spec hstore (List.getElem?_eq_getElem hk) edges
      refine ⟨edges', hrun, ?_⟩
      intro e
      rw [hedges', hhas]
      constructor
      · rintro (⟨i, j, a, b, hi, ha, hb, hn, he⟩ | ⟨j, b, hb, hn, he⟩)
        · exact ⟨i, j, a, b, by omega, ha, hb, hn, he⟩
        · exact ⟨k, j, _, b, by omega, List.getElem?_eq_getElem hk, hb, hn, he⟩
      · rintro ⟨i, j, a, b, hi, ha, hb, hn, he⟩
        by_cases hik : i < k
        · exact Or.inl ⟨i, j, a, b, hik, ha, hb, hn, he⟩
        · obtain rfl : i = k := by omega
          rw [List.getElem?_eq_getElem hk, Option.some.injEq] at ha
          exact Or.inr ⟨j, b, hb, ha ▸ hn, ha ▸ he⟩)
  refine ⟨edges, ?_, hhas⟩
  have h0 : ((0 : Nat) : Int) = 0 := rfl
  rw [h0] at hedges
  rw [createGrid, hrun, ok_bind, hedges, ok_bind, pure_eq_ok]

/-! ## The neighbours on the grid -/

theorem remainder_of_lt {x y : ℚ} (hy : 0 < y) (h1 : y ≤ x) (h2 : x < 2 * y) :
    GridNode.remainder x y = x - y := by
  have hq1 : 1 ≤ x / y := (le_div_iff₀ hy).mpr (by linarith)
  have hq2 : x / y < 2 := (div_lt_iff₀ hy).mpr h2
  have hnum : 0 ≤ (x / y).num := Rat.num_nonneg.mpr (by linarith)
  have hfloor : (x / y).num.tdiv (x / y).den = 1 := by
    rw [Int.tdiv_eq_ediv_of_nonneg hnum, ← Rat.floor_def', Int.floor_eq_iff]
    push_cast
    exact ⟨hq1, by linarith⟩
  rw [GridNode.remainder, hfloor]
  push_cast
  ring

/-- The eastern neighbour of a place.  East of the first place is the last one. -/
theorem calcEasternNode_eq (hdim : 2 < dimLong) (lat : ℚ) (k : Nat) :
    (⟨lat, longAt dimLong k⟩ : GridNode).calcEasternNode (coordinateStepLongitude dimLong)
      = ⟨lat, longAt dimLong (if k = 0 then dimLong - 1 else k - 1)⟩ := by
  have hpos : 0 < coordinateStepLongitude dimLong := step_pos (by norm_num) (by omega)
  have hsmall : coordinateStepLongitude dimLong < 180 := by
    have hd : (2 : ℚ) < dimLong := by exact_mod_cast hdim
    rw [coordinateStepLongitude, div_lt_iff₀ (by linarith)]
    linarith
  by_cases hk : k = 0
  · subst hk
    simp only [GridNode.calcEasternNode, longAt_zero, if_true, longAt_last (show 0 < dimLong by omega)]
    rw [if_pos (by linarith), remainder_of_lt (by norm_num) (by linarith) (by linarith)]
    congr 1
    ring
  · obtain ⟨l, rfl⟩ : ∃ l, k = l + 1 := ⟨k - 1, by omega⟩
    have hle : longAt dimLong l ≤ 180 := by
      have : 0 ≤ (l : ℚ) * coordinateStepLongitude dimLong :=
        mul_nonneg (Nat.cast_nonneg l) (le_of_lt hpos)
      simp only [longAt]
      linarith
    have hback : longAt dimLong (l + 1) + coordinateStepLongitude dimLong = longAt dimLong l := by
      rw [longAt_succ]
      ring
    simp only [GridNode.calcEasternNode, hback]
    rw [if_neg (by linarith), if_neg (by omega), Nat.add_sub_cancel]

/-- The western neighbour of a place.  West of the last place is -180. -/
theorem calcWesternNode_eq (hdim : 0 < dimLong) (lat : ℚ) {k : Nat} (hk : k < dimLong) :
    (⟨lat, longAt dimLong k⟩ : GridNode).calcWesternNode (coordinateStepLongitude dimLong)
      = ⟨lat, longAt dimLong (k + 1)⟩ := by
  have hge : -180 ≤ longAt dimLong (k + 1) := by
    by_cases hlast : k + 1 < dimLong
    · exact le_of_lt ((longAt_gt hdim _).mpr hlast)
    · rw [show k + 1 = dimLong by omega, longAt_dim hdim]
  simp only [GridNode.calcWesternNode, ← longAt_succ]
  rw [if_neg (by linarith)]

theorem calcNorthernNode_eq (hdim : 0 < dimLat) (long : ℚ) (j : Nat) :
    (⟨latAt dimLat j, long⟩ : GridNode).calcNorthernNode (coordinateStepLatitude dimLat)
      = if j = 0 then none else some ⟨latAt dimLat (j - 1), long⟩ := by
  have hpos : 0 < coordinateStepLatitude dimLat := step_pos (by norm_num) hdim
  by_cases hj : j = 0
  · subst hj
    have h0 : latAt dimLat 0 = 90 := by simp [latAt]
    simp only [GridNode.calcNorthernNode, h0, if_true]
    rw [if_pos (by linarith)]
  · obtain ⟨l, rfl⟩ : ∃ l, j = l + 1 := ⟨j - 1, by omega⟩
    have hle : latAt dimLat l ≤ 90 := by
      have : 0 ≤ (l : ℚ) * coordinateStepLatitude dimLat :=
        mul_nonneg (Nat.cast_nonneg l) (le_of_lt hpos)
      simp only [latAt]
      linarith
    have hback : latAt dimLat (l + 1) + coordinateStepLatitude dimLat = latAt dimLat l := by
      rw [latAt_succ]
      ring
    simp only [GridNode.calcNorthernNode, hback]
    rw [if_neg (by linarith), if_neg hj, Nat.add_sub_cancel]

theorem calcSouthernNode_eq (hdim : 0 < dimLat) (long : ℚ) (j : Nat) :
    (⟨latAt dimLat j, long⟩ : GridNode).calcSouthernNode (coordinateStepLatitude dimLat)
      = if j + 1 ≤ dimLat then some ⟨latAt dimLat (j + 1), long⟩ else none := by
  have hle := latAt_le hdim (j + 1)
  simp only [GridNode.calcSouthernNode, ← latAt_succ]
  by_cases hj : j + 1 ≤ dimLat
  · rw [if_neg (not_lt.mpr (hle.mpr hj)), if_pos hj]
  · rw [if_pos (not_le.mp (fun h => hj (hle.mp h))), if_neg hj]

/-- The place of a node. -/
def nodeAt (dimLat dimLong j k : Nat) : GridNode := ⟨latAt dimLat j, longAt dimLong k⟩

/-- Two places of a row that are next to each other, in the direction in which
the source finds them. -/
def RowStep (dimLong k k' : Nat) : Prop := k = k' + 1 ∨ k' = k + 1 ∨ (k = 0 ∧ k' + 1 = dimLong)

theorem neighbour_iff (hlat : 0 < dimLat) (hlong : 2 < dimLong) {j k j' k' : Nat}
    (hk : k < dimLong) (hj' : j' ≤ dimLat) (hk' : k' < dimLong) :
    Neighbour dimLat dimLong (nodeAt dimLat dimLong j k) (nodeAt dimLat dimLong j' k') ↔
      (j = j' ∧ RowStep dimLong k k') ∨ (k = k' ∧ (j = j' + 1 ∨ j' = j + 1)) := by
  have hinj : ∀ a b c d : Nat, (⟨latAt dimLat a, longAt dimLong b⟩ : GridNode)
      = ⟨latAt dimLat c, longAt dimLong d⟩ ↔ a = c ∧ b = d := by
    intro a b c d
    rw [GridNode.mk.injEq]
    constructor
    · rintro ⟨h1, h2⟩
      exact ⟨latAt_inj hlat h1, longAt_inj (by omega) h2⟩
    · rintro ⟨rfl, rfl⟩
      exact ⟨rfl, rfl⟩
  simp only [Neighbour, nodeAt, calcEasternNode_eq hlong, calcWesternNode_eq (by omega) _ hk,
    calcNorthernNode_eq hlat, calcSouthernNode_eq hlat, hinj]
  have hnorth : ((if j = 0 then none else some ⟨latAt dimLat (j - 1), longAt dimLong k⟩)
      = some (⟨latAt dimLat j', longAt dimLong k'⟩ : GridNode)) ↔ j = j' + 1 ∧ k = k' := by
    split_ifs with h0
    · constructor
      · intro h
        exact absurd h (by simp)
      · intro h
        omega
    · rw [Option.some.injEq, hinj]
      omega
  have hsouth : ((if j + 1 ≤ dimLat then some ⟨latAt dimLat (j + 1), longAt dimLong k⟩ else none)
      = some (⟨latAt dimLat j', longAt dimLong k'⟩ : GridNode)) ↔ j' = j + 1 ∧ k = k' := by
    split_ifs with h0
    · rw [Option.some.injEq, hinj]
      omega
    · constructor
      · intro h
        exact absurd h (by simp)
      · intro h
        omega
  rw [hnorth, hsouth, RowStep]
  split_ifs with h0
  · omega
  · omega

/-! ## Symmetry -/

/-- An edge is listed if and only if its reverse is, with the same length. -/
def SymmetricEdges (edges : List TmpEdge) : Prop :=
  ∀ a b d : Int, (⟨a, b, d⟩ : TmpEdge) ∈ edges ↔ (⟨b, a, d⟩ : TmpEdge) ∈ edges

/-- Nodes of one row whose longitudes differ by one step modulo 360 are joined in
both directions. -/
def RowsClosed (step : ℚ) (N : Node ℚ) (edges : List TmpEdge) : Prop :=
  ∀ (a b : Nat) (lat x y : ℚ) (z : Int), N.latitude[a]? = some lat → N.latitude[b]? = some lat →
    N.longitude[a]? = some x → N.longitude[b]? = some y → y = x + step + 360 * z →
    (∃ d, (⟨a, b, d⟩ : TmpEdge) ∈ edges) ∧ ∃ d, (⟨b, a, d⟩ : TmpEdge) ∈ edges

/-- No row has water on both sides of the place where it should be closed. -/
def NoCrossing (pointInWater : ℚ → ℚ → Bool) (dimLat dimLong : Nat) : Prop :=
  ∀ j : Nat, j ≤ dimLat → ¬ (pointInWater (latAt dimLat j) 180 = true ∧
    pointInWater (latAt dimLat j) (-180 + coordinateStepLongitude dimLong) = true)

/-- The nodes of the grid, each once. -/
structure OnGrid (pointInWater : ℚ → ℚ → Bool) (dimLat dimLong : Nat)
    (gridNodes : List GridNode) : Prop where
  nodup : gridNodes.Nodup
  mem_iff : ∀ node, node ∈ gridNodes ↔ ∃ j k, j ≤ dimLat ∧ k < dimLong ∧
    node = nodeAt dimLat dimLong j k ∧
    pointInWater (latAt dimLat j) (longAt dimLong k) = true

theorem OnGrid.place (h : OnGrid pointInWater dimLat dimLong gridNodes) {i : Nat} {a : GridNode}
    (ha : gridNodes[i]? = some a) : ∃ j k, j ≤ dimLat ∧ k < dimLong ∧
      a = nodeAt dimLat dimLong j k ∧ pointInWater (latAt dimLat j) (longAt dimLong k) = true :=
  (h.mem_iff a).mp (List.mem_of_getElem? ha)

/-- Without a crossing the neighbours of a node have it as a neighbour. -/
theorem OnGrid.neighbour_symm (h : OnGrid pointInWater dimLat dimLong gridNodes)
    (hlat : 0 < dimLat) (hlong : 2 < dimLong) (hno : NoCrossing pointInWater dimLat dimLong)
    {i i' : Nat} {a b : GridNode} (ha : gridNodes[i]? = some a) (hb : gridNodes[i']? = some b)
    (hn : Neighbour dimLat dimLong a b) : Neighbour dimLat dimLong b a := by
  obtain ⟨j, k, hj, hk, rfl, hwater⟩ := h.place ha
  obtain ⟨j', k', hj', hk', rfl, hwater'⟩ := h.place hb
  rw [neighbour_iff hlat hlong hk hj' hk', RowStep] at hn
  rw [neighbour_iff hlat hlong hk' hj hk, RowStep]
  rcases hn with ⟨rfl, hstep | hstep | ⟨rfl, hlast⟩⟩ | ⟨rfl, hstep⟩
  · exact Or.inl ⟨rfl, Or.inr (Or.inl hstep)⟩
  · exact Or.inl ⟨rfl, Or.inl hstep⟩
  · -- the step over the antimeridian
    exfalso
    obtain rfl : k' = dimLong - 1 := by omega
    rw [longAt_last (by omega)] at hwater'
    rw [longAt_zero] at hwater
    exact hno j hj ⟨hwater, hwater'⟩
  · exact Or.inr ⟨rfl, hstep.symm⟩

theorem OnGrid.symmetricEdges (h : OnGrid pointInWater dimLat dimLong gridNodes)
    (hlat : 0 < dimLat) (hlong : 2 < dimLong) (hno : NoCrossing pointInWater dimLat dimLong)
    (hdist : ∀ a b, getDistance a b = getDistance b a) {edges : List TmpEdge}
    (hedges : HasEdges getDistance dimLat dimLong gridNodes gridNodes.length edges) :
    SymmetricEdges edges := by
  have hone : ∀ a b d : Int, (⟨a, b, d⟩ : TmpEdge) ∈ edges → (⟨b, a, d⟩ : TmpEdge) ∈ edges := by
    intro a b d he
    obtain ⟨i, j, x, y, hi, hx, hy, hn, heq⟩ := (hedges _).mp he
    obtain ⟨rfl, rfl, rfl⟩ := TmpEdge.mk.inj heq
    have hj := (List.getElem?_eq_some_iff.mp hy).1
    exact (hedges _).mpr ⟨j, i, y, x, hj, hy, hx, h.neighbour_symm hlat hlong hno hx hy hn,
      by rw [hdist]⟩
  intro a b d
  exact ⟨hone a b d, hone b a d⟩

/-- Longitudes that differ by one step belong to neighbouring places, or lie on
both sides of the antimeridian. -/
theorem longAt_step (hdim : 2 < dimLong) {k k' : Nat} (hk : k < dimLong) (hk' : k' < dimLong)
    {z : Int} (h : longAt dimLong k' = longAt dimLong k + coordinateStepLongitude dimLong + 360 * z) :
    k = k' + 1 ∨ (k = 0 ∧ k' + 1 = dimLong) := by
  have hpos : 0 < coordinateStepLongitude dimLong := step_pos (by norm_num) (by omega)
  have hfull : (dimLong : ℚ) * coordinateStepLongitude dimLong = 360 := by
    have hend : longAt dimLong dimLong = -180 := longAt_dim (by omega)
    rw [longAt] at hend
    linarith
  have hmul : ((k : ℚ) - k' - 1 - dimLong * z) * coordinateStepLongitude dimLong = 0 := by
    rw [← hfull] at h
    simp only [longAt] at h
    linarith
  have hzero := (mul_eq_zero.mp hmul).resolve_right (ne_of_gt hpos)
  have hint : (k : Int) - k' - 1 = dimLong * z := by
    have : ((k : ℚ) - k' - 1) = dimLong * z := by linarith
    exact_mod_cast this
  -- the left side is between `-dimLong` and `dimLong`
  have hz : z = 0 ∨ z = -1 := by
    have hz1 : z < 1 := by
      by_contra hge
      have : (dimLong : Int) * 1 ≤ dimLong * z :=
        mul_le_mul_of_nonneg_left (by omega) (by omega)
      omega
    have hz2 : -2 < z := by
      by_contra hle
      have : (dimLong : Int) * z ≤ dimLong * (-2) :=
        mul_le_mul_of_nonneg_left (by omega) (by omega)
      omega
    omega
  rcases hz with rfl | rfl
  · exact Or.inl (by omega)
  · exact Or.inr (by omega)

theorem OnGrid.rowsClosed (h : OnGrid pointInWater dimLat dimLong gridNodes)
    (hlat : 0 < dimLat) (hlong : 2 < dimLong) (hno : NoCrossing pointInWater dimLat dimLong)
    {edges : List TmpEdge}
    (hedges : HasEdges getDistance dimLat dimLong gridNodes gridNodes.length edges) :
    RowsClosed (coordinateStepLongitude dimLong)
      ⟨gridNodes.map GridNode.latitude, gridNodes.map GridNode.longitude⟩ edges := by
  intro a b lat x y z hlata hlatb hx hy hxy
  simp only [List.getElem?_map, Option.map_eq_some_iff] at hlata hlatb hx hy
  obtain ⟨node, hnode, rfl⟩ := hlata
  obtain ⟨node', hnode', hsame⟩ := hlatb
  obtain ⟨_, hx, rfl⟩ := hx
  obtain ⟨_, hy, rfl⟩ := hy
  obtain rfl := Option.some.inj (hnode.symm.trans hx)
  obtain rfl := Option.some.inj (hnode'.symm.trans hy)
  obtain ⟨j, k, hj, hk, rfl, hwater⟩ := h.place hnode
  obtain ⟨j', k', hj', hk', rfl, hwater'⟩ := h.place hnode'
  obtain rfl : j' = j := latAt_inj hlat hsame
  have hn : Neighbour dimLat dimLong (nodeAt dimLat dimLong j' k) (nodeAt dimLat dimLong j' k') := by
    rw [neighbour_iff hlat hlong hk hj' hk', RowStep]
    rcases longAt_step hlong hk hk' hxy with hstep | hstep
    · exact Or.inl ⟨rfl, Or.inl hstep⟩
    · exact Or.inl ⟨rfl, Or.inr (Or.inr hstep)⟩
  have hia := (List.getElem?_eq_some_iff.mp hnode).1
  have hib := (List.getElem?_eq_some_iff.mp hnode').1
  exact ⟨⟨_, (hedges _).mpr ⟨a, b, _, _, hia, hnode, hnode', hn, rfl⟩⟩,
    ⟨_, (hedges _).mpr ⟨b, a, _, _, hib, hnode', hnode,
      h.neighbour_symm hlat hlong hno hnode hnode' hn, rfl⟩⟩⟩

/-- A row with water on both sides of the antimeridian has an edge to the east
and none back. -/
theorem OnGrid.noCrossing (h : OnGrid pointInWater dimLat dimLong gridNodes)
    (hlat : 0 < dimLat) (hlong : 2 < dimLong) {edges : List TmpEdge}
    (hedges : HasEdges getDistance dimLat dimLong gridNodes gridNodes.length edges)
    (hsymm : SymmetricEdges edges) : NoCrossing pointInWater dimLat dimLong := by
  rintro j hj ⟨hfirst, hlast⟩
  rw [← longAt_zero dimLong] at hfirst
  rw [← longAt_last (by omega)] at hlast
  have ha := (h.mem_iff _).mpr ⟨j, 0, hj, by omega, rfl, hfirst⟩
  have hb := (h.mem_iff _).mpr ⟨j, dimLong - 1, hj, by omega, rfl, hlast⟩
  obtain ⟨a, hia, hanode⟩ := List.getElem_of_mem ha
  obtain ⟨b, hib, hbnode⟩ := List.getElem_of_mem hb
  have ha' := List.getElem?_eq_some_iff.mpr ⟨hia, hanode⟩
  have hb' := List.getElem?_eq_some_iff.mpr ⟨hib, hbnode⟩
  have hn : Neighbour dimLat dimLong (nodeAt dimLat dimLong j 0)
      (nodeAt dimLat dimLong j (dimLong - 1)) := by
    rw [neighbour_iff hlat hlong (by omega) hj (by omega), RowStep]
    exact Or.inl ⟨rfl, Or.inr (Or.inr ⟨rfl, by omega⟩)⟩
  have hedge := (hedges _).mpr ⟨a, b, _, _, hia, ha', hb', hn, rfl⟩
  obtain ⟨i, i', x, y, _, hx, hy, hback, heq⟩ := (hedges _).mp ((hsymm _ _ _).mp hedge)
  obtain ⟨hi, hi', _⟩ := TmpEdge.mk.inj heq
  rw [Nat.cast_inj] at hi hi'
  subst hi
  subst hi'
  obtain rfl := Option.some.inj (hb'.symm.trans hx)
  obtain rfl := Option.some.inj (ha'.symm.trans hy)
  rw [neighbour_iff hlat hlong (by omega) hj (by omega), RowStep] at hback
  omega

/-- The created edges are symmetric and close each row if and only if no row has
water on both sides of the antimeridian, in whatever order the threads added
the nodes. -/
theorem createGrid_symmetric_iff (hlat : 0 < dimLat) (hlong : 2 < dimLong) (hT : 0 < T)
    (hdist : ∀ a b, getDistance a b = getDistance b a) :
    ∃ F, ∀ fuel, F ≤ fuel → ∃ workers,
      initGridCreator pointInWater dimLat dimLong T fuel = .ok workers ∧
      ∀ gridNodes, Interleaving workers gridNodes → ∃ N edges,
        createGrid getDistance dimLat dimLong gridNodes = .ok (N, edges) ∧
        (SymmetricEdges edges ∧ RowsClosed (coordinateStepLongitude dimLong) N edges ↔
          NoCrossing pointInWater dimLat dimLong) := by
  refine ⟨max (dimLat + 1) dimLong, ?_⟩
  intro fuel hfuel
  obtain ⟨workers, hrun, hperm⟩ := initGridCreator_spec pointInWater hlat
    (show 0 < dimLong by omega) hT hfuel
  refine ⟨workers, hrun, ?_⟩
  intro gridNodes hinter
  have hall := hinter.perm.trans hperm
  have hgrid : OnGrid pointInWater dimLat dimLong gridNodes :=
    ⟨hall.nodup_iff.mpr (nodup_allNodes hlat (by omega)),
      fun node => hall.mem_iff.trans mem_allNodes⟩
  obtain ⟨edges, hcreate, hedges⟩ := createGrid_spec getDistance dimLat dimLong hgrid.nodup
  refine ⟨_, edges, hcreate, ?_⟩
  constructor
  · rintro ⟨hsymm, _⟩
    exact hgrid.noCrossing hlat hlong hedges hsymm
  · intro hno
    exact ⟨hgrid.symmetricEdges hlat hlong hno hdist hedges,
      hgrid.rowsClosed hlat hlong hno hedges⟩

/-- The distance of two points on the equator that are 90 degrees apart. -/
def quarter (_ _ : GridNode) : Int := 10007543

/-- Water on the equator, but not on the antimeridian. -/
theorem createGrid_symmetric_iff_equator :
    ∃ F, ∀ fuel, F ≤ fuel → ∃ workers,
      initGridCreator (fun lat long => lat = 0 && long ≠ 180) 2 4 15 fuel = .ok workers ∧
      ∀ gridNodes, Interleaving workers gridNodes → ∃ N edges,
        createGrid quarter 2 4 gridNodes = .ok (N, edges) ∧
        (SymmetricEdges edges ∧ RowsClosed (coordinateStepLongitude 4) N edges ↔
          NoCrossing (fun lat long => lat = 0 && long ≠ 180) 2 4) :=
  createGrid_symmetric_iff (by decide) (by decide) (by decide) (fun _ _ => rfl)

/-- Water on the whole equator: the edge from 180 to -90 has no reverse. -/
theorem equator_not_symmetric :
    ∃ workers N edges, initGridCreator (fun lat _ => lat = 0) 2 4 15 4 = .ok workers ∧
      Interleaving workers workers.flatten ∧
      createGrid quarter 2 4 workers.flatten = .ok (N, edges) ∧
      (⟨0, 3, 10007543⟩ : TmpEdge) ∈ edges ∧ (⟨3, 0, 10007543⟩ : TmpEdge) ∉ edges ∧
      ¬ SymmetricEdges edges := by
  obtain ⟨workers, hrun, hworkers⟩ := exists_of_map_toOption
    (x := initGridCreator (fun lat _ => lat = 0) 2 4 15 4)
    (p := fun workers => workers.flatten
      = [⟨0, 180⟩, ⟨0, 90⟩, ⟨0, 0⟩, ⟨0, -90⟩]) (by decide +kernel)
  rw [decide_eq_true_eq] at hworkers
  obtain ⟨⟨N, edges⟩, hcreate, hedges⟩ := exists_of_map_toOption
    (x := createGrid quarter 2 4 [⟨0, 180⟩, ⟨0, 90⟩, ⟨0, 0⟩, ⟨0, -90⟩])
    (p := fun result => (⟨0, 3, 10007543⟩ : TmpEdge) ∈ result.2 ∧
      (⟨3, 0, 10007543⟩ : TmpEdge) ∉ result.2) (by decide +kernel)
  rw [decide_eq_true_eq] at hedges
  refine ⟨workers, N, edges, hrun, interleaving_flatten workers, ?_, hedges.1, hedges.2, ?_⟩
  · rw [hworkers]
    exact hcreate
  · intro hsymm
    exact hedges.2 ((hsymm _ _ _).mp hedges.1)

end GridCreator

end SeaRouter
