import SeaRouter.DijkstraGrid.CreatedEdges
import SeaRouter.Lib.Renaming
import SeaRouter.Router.Reuse

/-!
# From the water to the routes

`GridCreator` writes the graph that it creates to a file, and both importers read the
file.  The created edges over the antimeridian lead to the east only; the import adds
those that lead back.

* `createGrid_joins`: after the import each two nodes that are one step apart on the
  globe are joined, in both directions, and no other ones.  Only for a grid with a
  `Stranded` node does the import end with an exception.
* `createGrid_route`: on such a grid the Dijkstra router finds shortest ways over the
  water.  `AtSea` is the graph of the points in water, and `Renames` turns the ids of
  the nodes, which depend on the order in which the threads added them, into points.
-/

namespace SeaRouter

open Java FmiFile WGraph

namespace GridCreator

variable {dimLat dimLong T : Nat} {pointInWater : ℚ → ℚ → Bool} {gridNodes : List GridNode}
  {getDistance : GridNode → GridNode → Int} {parseDouble : List Char → Run ℚ}
  {showDouble : ℚ → List Char} {entryOrder : List Int → List Int}

/-! ## The export -/

/-- The arrays of `Edge` after `createGrid()`, which leaves `offset` alone. -/
def edgeArrays (N : Node ℚ) (edges : List TmpEdge) : Grid where
  nodeCount := N.latitude.length
  startNode := edges.map TmpEdge.startNode
  destNode := edges.map TmpEdge.destNode
  dist := edges.map TmpEdge.dist
  offset := []

/-- `exportGridAsFMIFile()`, at the end of `createGrid()`: the text of the file. -/
def exportGridAsFMIFile (showDouble : ℚ → List Char) (N : Node ℚ) (edges : List TmpEdge) :
    Run (List Char) :=
  Grid.exportToFmiFile showDouble N (edgeArrays N edges)

theorem edges_edgeArrays (N : Node ℚ) (edges : List TmpEdge) :
    (edgeArrays N edges).edges = edges := by
  simp only [Grid.edges, edgeArrays]
  induction edges with
  | nil => rfl
  | cons e l ih => simp only [List.map_cons, List.zip_cons_cons, ih]

/-- The coordinates of the grid are short decimals, and they are read back as they were
written. -/
structure ReadsPlaces (parseDouble : List Char → Run ℚ) (showDouble : ℚ → List Char)
    (dimLat dimLong : Nat) : Prop where
  short : ShortSteps dimLat dimLong
  reads : ∀ x, ((∃ j, j ≤ dimLat ∧ x = latAt dimLat j) ∨ ∃ k, k < dimLong ∧ x = longAt dimLong k) →
    parseDouble (showDouble x) = .ok x ∧ IsField (showDouble x)

theorem OnGrid.perm (h : OnGrid pointInWater dimLat dimLong gridNodes) (hlat : 0 < dimLat)
    (hlong : 0 < dimLong) : gridNodes.Perm (allNodes pointInWater dimLat dimLong) :=
  (List.perm_ext_iff_of_nodup h.nodup (nodup_allNodes hlat hlong)).mpr h.mem_iff_allNodes

/-- The grid has a node for each place at most. -/
theorem length_allNodes_le (pointInWater : ℚ → ℚ → Bool) (dimLat dimLong : Nat) :
    (allNodes pointInWater dimLat dimLong).length ≤ (dimLat + 1) * dimLong := by
  have hrow : ∀ lats : List ℚ,
      (lats.flatMap (rowNodes pointInWater dimLong)).length ≤ lats.length * dimLong := by
    intro lats
    induction lats with
    | nil => simp
    | cons lat lats ih =>
      have hle : (rowNodes pointInWater dimLong lat).length ≤ dimLong := by
        apply (List.length_filter_le _ _).trans
        rw [List.length_map, List.length_range]
      rw [List.flatMap_cons, List.length_append, List.length_cons, Nat.add_mul]
      omega
  have hall := hrow ((List.range (dimLat + 1)).map (latAt dimLat))
  rwa [List.length_map, List.length_range] at hall

theorem length_edgesFrom_le (i : Nat) (a : GridNode) :
    (edgesFrom getDistance dimLat dimLong gridNodes i a).length ≤ 4 := by
  rw [edgesFrom, List.length_map]
  apply (List.length_filter_le _ _).trans
  exact List.reduceOption_length_le _

theorem length_allEdges_le :
    (allEdges getDistance dimLat dimLong gridNodes).length ≤ 4 * gridNodes.length := by
  have hpart : ∀ n, ((List.range n).flatMap fun i => (gridNodes[i]?).elim []
      (edgesFrom getDistance dimLat dimLong gridNodes i)).length ≤ 4 * n := by
    intro n
    induction n with
    | zero => simp
    | succ n ih =>
      have hle : ((gridNodes[n]?).elim []
          (edgesFrom getDistance dimLat dimLong gridNodes n)).length ≤ 4 := by
        cases gridNodes[n]? with
        | none => simp
        | some a => exact length_edgesFrom_le n a
      rw [List.range_succ, List.flatMap_append, List.flatMap_singleton, List.length_append]
      omega
  exact hpart gridNodes.length

/-- The threads add the nodes of the grid, in one order or another. -/
theorem exists_onGrid (pointInWater : ℚ → ℚ → Bool) (hlat : 0 < dimLat) (hlong : 0 < dimLong)
    (hT : 0 < T) : ∃ F, ∀ fuel, F ≤ fuel → ∃ workers,
      initGridCreator pointInWater dimLat dimLong T fuel = .ok workers ∧
      ∀ gridNodes, Interleaving workers gridNodes →
        OnGrid pointInWater dimLat dimLong gridNodes := by
  refine ⟨max (dimLat + 1) dimLong, ?_⟩
  intro fuel hfuel
  obtain ⟨workers, hrun, hperm⟩ := initGridCreator_spec pointInWater hlat hlong hT hfuel
  exact ⟨workers, hrun, fun gridNodes h => onGrid_of_perm hlat hlong (h.perm.trans hperm)⟩

/-- What `createGrid()` leaves in the arrays. -/
theorem OnGrid.holds (h : OnGrid pointInWater dimLat dimLong gridNodes) (hlat : 0 < dimLat)
    (hlong : 0 < dimLong) (hint : ∀ a b, IsInt (getDistance a b))
    (hsmall : (4 * ((dimLat + 1) * dimLong) : Nat) ≤ MAX_VALUE) :
    Grid.Holds ⟨gridNodes.map GridNode.latitude, gridNodes.map GridNode.longitude⟩
      (edgeArrays ⟨gridNodes.map GridNode.latitude, gridNodes.map GridNode.longitude⟩
        (allEdges getDistance dimLat dimLong gridNodes)) := by
  have hnodes : gridNodes.length ≤ (dimLat + 1) * dimLong := by
    rw [(h.perm hlat hlong).length_eq]
    exact length_allNodes_le pointInWater dimLat dimLong
  have hcount : (allEdges getDistance dimLat dimLong gridNodes).length ≤ 4 * gridNodes.length :=
    length_allEdges_le
  have hedges : HasEdges getDistance dimLat dimLong gridNodes gridNodes.length
      (allEdges getDistance dimLat dimLong gridNodes) := hasEdges_allEdges h.nodup
  refine ⟨by simp, by simp [edgeArrays], by simp [edgeArrays], ?_, ?_, ?_, ?_⟩
  · intro e he
    rw [edges_edgeArrays, hedges] at he
    obtain ⟨i, j, a, b, hi, _, hb, _, rfl⟩ := he
    have hj := (List.getElem?_eq_some_iff.mp hb).1
    simp only [List.length_map]
    omega
  · intro l hl
    obtain ⟨e, he, rfl⟩ := List.mem_map.mp hl
    obtain ⟨i, j, a, b, _, _, _, _, rfl⟩ := (hedges e).mp he
    exact hint a b
  · simp only [List.length_map]
    omega
  · simp only [edgeArrays, List.length_map]
    omega

/-- The text of the file. -/
theorem OnGrid.readsBack (h : OnGrid pointInWater dimLat dimLong gridNodes)
    (hread : ReadsPlaces parseDouble showDouble dimLat dimLong) :
    Grid.ReadsBack parseDouble showDouble
      ⟨gridNodes.map GridNode.latitude, gridNodes.map GridNode.longitude⟩ := by
  intro x hx
  apply hread.reads
  rcases hx with hx | hx
  · obtain ⟨node, hnode, rfl⟩ := List.mem_map.mp hx
    obtain ⟨j, k, hj, _, rfl, _⟩ := (h.mem_iff node).mp hnode
    exact Or.inl ⟨j, hj, rfl⟩
  · obtain ⟨node, hnode, rfl⟩ := List.mem_map.mp hx
    obtain ⟨j, k, _, hk, rfl, _⟩ := (h.mem_iff node).mp hnode
    exact Or.inr ⟨k, hk, rfl⟩

/-! ## The import -/

/-- What the importers make of the exported grid. -/
structure Imports (parseDouble : List Char → Run ℚ) (entryOrder : List Int → List Int)
    (text : List Char) (N : Node ℚ) (g : Grid) (I : InputGraph) : Prop where
  grid : Grid.importFmiFile parseDouble entryOrder text = .ok (N, g)
  dynamic : DynamicGrid.importFmiFile parseDouble entryOrder text = .ok (N, I)
  same : DynamicGrid.edgesOf I = g.edges

theorem imports_of_readFmi (horder : ∀ ks, (entryOrder ks).Perm ks) {text : List Char}
    {r : Records ℚ} (hrun : readFmi parseDouble entryOrder text = .ok r) (hn : 0 ≤ r.noNodes)
    (he : 0 ≤ r.noEdges) (hfour : DynamicGrid.FourEach r.edgeList) :
    Imports parseDouble entryOrder text (Grid.nodesOf r) (Grid.gridOf r)
      (DynamicGrid.graphOf r) where
  grid := by
    rw [Grid.importFmiFile, hrun, ok_bind, Grid.fill_spec (readFmi_imported horder hrun) hn he]
  dynamic := by
    rw [DynamicGrid.importFmiFile, hrun, ok_bind,
      (DynamicGrid.fill_spec (readFmi_imported horder hrun) hn he).1 hfour]
  same := by rw [DynamicGrid.edgesOf_graphOf, Grid.edges_gridOf]

theorem OnGrid.imports (h : OnGrid pointInWater dimLat dimLong gridNodes) (hlat : 0 < dimLat)
    (hlong : 2 < dimLong) (hdist : ∀ a b, getDistance a b = getDistance b a)
    (hint : ∀ a b, IsInt (getDistance a b))
    (hsmall : (4 * ((dimLat + 1) * dimLong) : Nat) ≤ MAX_VALUE)
    (hread : ReadsPlaces parseDouble showDouble dimLat dimLong)
    (horder : ∀ ks, (entryOrder ks).Perm ks) {N : Node ℚ} {edges : List TmpEdge}
    (hcreate : createGrid getDistance dimLat dimLong gridNodes = .ok (N, edges)) :
    ∃ text, exportGridAsFMIFile showDouble N edges = .ok text ∧
      ((∃ j, Stranded pointInWater dimLat dimLong j) →
        Grid.importFmiFile parseDouble entryOrder text = .error .nullPointer ∧
        DynamicGrid.importFmiFile parseDouble entryOrder text = .error .nullPointer) ∧
      ((∀ j, ¬ Stranded pointInWater dimLat dimLong j) → ∃ g I,
        Imports parseDouble entryOrder text N g I ∧ g.edges.Nodup ∧
        ∀ e, e ∈ g.edges ↔ Joins getDistance dimLat dimLong gridNodes e) := by
  rw [createGrid_eq getDistance dimLat dimLong h.nodup, Except.ok.injEq, Prod.mk.injEq] at hcreate
  obtain ⟨rfl, rfl⟩ := hcreate
  have hholds : Grid.Holds _ (edgeArrays _ (allEdges getDistance dimLat dimLong gridNodes)) :=
    h.holds hlat (by omega) hint hsmall
  have hdesc := hholds.describes_of_readsBack (h.readsBack hread)
  refine ⟨_, hholds.exportToFmiFile_eq showDouble, ?_, ?_⟩
  · intro hstrand
    obtain ⟨j, hj⟩ := hstrand
    have hans : ¬ Answering (allEdges getDistance dimLat dimLong gridNodes) :=
      fun hans => (h.answering_iff hlat hlong).mp hans j hj
    rw [← edges_edgeArrays _ (allEdges getDistance dimLat dimLong gridNodes),
      ← hholds.fileEdges_eq] at hans
    have herr := readFmi_error hdesc horder hans
    rw [Grid.importFmiFile, DynamicGrid.importFmiFile, herr]
    exact ⟨rfl, rfl⟩
  · intro hno
    have hans : Answering (allEdges getDistance dimLat dimLong gridNodes) :=
      (h.answering_iff hlat hlong).mpr hno
    have hans' := hans
    rw [← edges_edgeArrays _ (allEdges getDistance dimLat dimLong gridNodes),
      ← hholds.fileEdges_eq] at hans'
    obtain ⟨ks, hks, hrun⟩ := readFmi_spec hdesc horder hans'
    rw [hholds.fileEdges_eq, edges_edgeArrays] at hks hrun
    have hmem := h.completed_iff hlat hlong hdist hks
    have hnodup : (sortBy TmpEdge.startNode (sortBy TmpEdge.startNode
        (allEdges getDistance dimLat dimLong gridNodes) ++
          added (allEdges getDistance dimLat dimLong gridNodes) ks)).Nodup := by
      have hperm := (sortBy_perm TmpEdge.startNode _).trans ((sortBy_perm TmpEdge.startNode
        (allEdges getDistance dimLat dimLong gridNodes)).append_right
          (added (allEdges getDistance dimLat dimLong gridNodes) ks))
      exact hperm.nodup_iff.mpr (nodup_append_added (h.nodup_allEdges hlat hlong) hks.nodup)
    have hS : ∀ e, e ∈ sortBy TmpEdge.startNode (sortBy TmpEdge.startNode
        (allEdges getDistance dimLat dimLong gridNodes) ++
          added (allEdges getDistance dimLat dimLong gridNodes) ks) ↔
        Joins getDistance dimLat dimLong gridNodes e := by
      intro e
      rw [← hmem, mem_sortBy, List.mem_append, mem_sortBy, List.mem_append]
    have himports := imports_of_readFmi horder hrun (Int.natCast_nonneg _) (Int.natCast_nonneg _)
      (h.fourEach hlat hlong hnodup hS)
    rw [hholds.nodesOf_eq] at himports
    refine ⟨_, _, himports, ?_, ?_⟩
    · rw [Grid.edges_gridOf]
      exact hnodup
    · rw [Grid.edges_gridOf]
      exact hS

/-- In whatever order the threads add the nodes, both importers read the exported file as
the graph in which exactly the nodes that are one step apart are joined, each two of them
once in each direction.  They throw if and only if some node is stranded. -/
theorem createGrid_joins (hlat : 0 < dimLat) (hlong : 2 < dimLong) (hT : 0 < T)
    (hdist : ∀ a b, getDistance a b = getDistance b a) (hint : ∀ a b, IsInt (getDistance a b))
    (hsmall : (4 * ((dimLat + 1) * dimLong) : Nat) ≤ MAX_VALUE)
    (hread : ReadsPlaces parseDouble showDouble dimLat dimLong)
    (horder : ∀ ks, (entryOrder ks).Perm ks) :
    ∃ F, ∀ fuel, F ≤ fuel → ∃ workers,
      initGridCreator pointInWater dimLat dimLong T fuel = .ok workers ∧
      ∀ gridNodes, Interleaving workers gridNodes → ∃ N edges text,
        createGrid getDistance dimLat dimLong gridNodes = .ok (N, edges) ∧
        exportGridAsFMIFile showDouble N edges = .ok text ∧
        ((∃ j, Stranded pointInWater dimLat dimLong j) →
          Grid.importFmiFile parseDouble entryOrder text = .error .nullPointer ∧
          DynamicGrid.importFmiFile parseDouble entryOrder text = .error .nullPointer) ∧
        ((∀ j, ¬ Stranded pointInWater dimLat dimLong j) → ∃ g I,
          Imports parseDouble entryOrder text N g I ∧ g.edges.Nodup ∧
          ∀ e, e ∈ g.edges ↔ Joins getDistance dimLat dimLong gridNodes e) := by
  obtain ⟨F, hF⟩ := exists_onGrid pointInWater hlat (show 0 < dimLong by omega) hT
  refine ⟨F, ?_⟩
  intro fuel hfuel
  obtain ⟨workers, hrun, hworkers⟩ := hF fuel hfuel
  refine ⟨workers, hrun, ?_⟩
  intro gridNodes hinter
  have hgrid := hworkers gridNodes hinter
  have hcreate := createGrid_eq getDistance dimLat dimLong hgrid.nodup
  obtain ⟨text, hexport, hbad, hgood⟩ :=
    hgrid.imports hlat hlong hdist hint hsmall hread horder hcreate
  exact ⟨_, _, text, hcreate, hexport, hbad, hgood⟩

/-! ## The routes -/

/-- The points in water, each joined to those one step away. -/
def AtSea (getDistance : GridNode → GridNode → Int) (pointInWater : ℚ → ℚ → Bool)
    (dimLat dimLong : Nat) (a b : GridNode) (l : Int) : Prop :=
  a ∈ allNodes pointInWater dimLat dimLong ∧ b ∈ allNodes pointInWater dimLat dimLong ∧
    NextTo dimLat dimLong a b ∧ l = getDistance a b

/-- The node with the id `u` lies at the point `a`. -/
def IsAt (gridNodes : List GridNode) (u : Int) (a : GridNode) : Prop := rd gridNodes u = .ok a

theorem isAt_natCast {i : Nat} {a : GridNode} : IsAt gridNodes i a ↔ gridNodes[i]? = some a :=
  ⟨getElem?_of_rd, rd_of_getElem?⟩

/-- The ids are names of the points. -/
theorem OnGrid.renames (h : OnGrid pointInWater dimLat dimLong gridNodes) {g : Grid}
    (hg : ∀ e, e ∈ g.edges ↔ Joins getDistance dimLat dimLong gridNodes e) :
    Renames (IsAt gridNodes) g.HasEdge (AtSea getDistance pointInWater dimLat dimLong) where
  functional u a b ha hb := Except.ok.inj (ha.symm.trans hb)
  injective u v a hu hv := by
    obtain ⟨hu0, hu⟩ := rd_eq_ok.mp hu
    obtain ⟨hv0, hv⟩ := rd_eq_ok.mp hv
    have := (List.getElem?_inj (List.getElem?_eq_some_iff.mp hu).1 h.nodup).mp (hu.trans hv.symm)
    omega
  edge_iff u v a b l ha hb := by
    have hmem : a ∈ gridNodes ∧ b ∈ gridNodes := ⟨mem_of_rd ha, mem_of_rd hb⟩
    rw [← Grid.mem_edges, hg, AtSea, ← h.mem_iff_allNodes, ← h.mem_iff_allNodes]
    constructor
    · intro hjoin
      obtain ⟨i, i', a', b', ha', hb', hnext, heq⟩ := hjoin
      obtain ⟨rfl, rfl, rfl⟩ := TmpEdge.mk.inj heq
      rw [← isAt_natCast] at ha' hb'
      obtain rfl := Except.ok.inj (ha.symm.trans ha')
      obtain rfl := Except.ok.inj (hb.symm.trans hb')
      exact ⟨hmem.1, hmem.2, hnext, rfl⟩
    · intro hsea
      obtain ⟨hu0, hu⟩ := rd_eq_ok.mp ha
      obtain ⟨hv0, hv⟩ := rd_eq_ok.mp hb
      refine ⟨u.toNat, v.toNat, a, b, hu, hv, hsea.2.2.1, ?_⟩
      rw [hsea.2.2.2, Int.toNat_of_nonneg hu0, Int.toNat_of_nonneg hv0]
  target u v l he := by
    obtain ⟨i, i', _, b, _, hb, _, heq⟩ := (hg _).mp (Grid.mem_edges.mpr he)
    obtain ⟨rfl, rfl, rfl⟩ := TmpEdge.mk.inj heq
    exact ⟨b, isAt_natCast.mpr hb⟩
  target' a b l he := by
    have hb := (h.mem_iff_allNodes b).mpr he.2.1
    obtain ⟨i, hi⟩ := List.mem_iff_getElem?.mp hb
    exact ⟨i, isAt_natCast.mpr hi⟩

/-- What a route between two points should be. -/
def ShortestAtSea (E : GridNode → GridNode → Int → Prop) (gridNodes : List GridNode)
    (a b : GridNode) (result : RoutingResult) : Prop :=
  (result.routeFound = true ↔ ∃ L, Walk E a b L) ∧
    (result.routeFound = true → IsDist E a b result.overallDistance ∧
      ∃ points, List.Forall₂ (IsAt gridNodes) result.path points ∧
        IsPath E points a b result.overallDistance)

theorem OnGrid.route (h : OnGrid pointInWater dimLat dimLong gridNodes) {g : Grid}
    (hw : g.WellFormed) (hg : ∀ e, e ∈ g.edges ↔ Joins getDistance dimLat dimLong gridNodes e)
    (hcount : g.nodeCount = gridNodes.length) (hnn : ∀ a b, 0 ≤ getDistance a b)
    (hfit : ∀ a b c d l, IsDist (AtSea getDistance pointInWater dimLat dimLong) a b d →
      AtSea getDistance pointInWater dimLat dimLong b c l → d + l < MAX_VALUE)
    {r : DijkstraRouter} (hr : DijkstraRouter.Used g r) {s t : Int} {a b : GridNode}
    (hs : IsAt gridNodes s a) (ht : IsAt gridNodes t b) :
    ∃ result, DijkstraRouter.route g r s t = .ok result ∧
      ShortestAtSea (AtSea getDistance pointInWater dimLat dimLong) gridNodes a b result := by
  have hR : Renames (IsAt gridNodes) g.HasEdge (AtSea getDistance pointInWater dimLat dimLong) :=
    h.renames hg
  have hnonneg : ∀ l ∈ g.dist, 0 ≤ l := by
    intro l hl
    obtain ⟨u, v, he⟩ := hw.exists_hasEdge hl
    obtain ⟨_, _, _, _, _, _, _, heq⟩ := (hg _).mp (Grid.mem_edges.mpr he)
    rw [(TmpEdge.mk.inj heq).2.2]
    exact hnn _ _
  have hroom : DijkstraRouter.Room g s := by
    intro order v d w l hd _ _ he _
    obtain ⟨b, hb⟩ := hd.1.mem_of_closed (P := fun v => ∃ b, IsAt gridNodes v b)
      (fun u v l he _ => hR.target u v l he) ⟨a, hs⟩
    obtain ⟨c, hc⟩ := hR.target v w l he
    exact hfit a b c d l ((hR.isDist_iff hs hb).mp hd) ((hR.edge_iff v w b c l hb hc).mp he)
  obtain ⟨hs0, hs1⟩ := rd_bounds hs
  have hnode : g.IsNode s := ⟨hs0, by rw [hcount]; exact hs1⟩
  obtain ⟨result, hrun, hfound, hdist⟩ :=
    DijkstraRouter.route_of_room hw hnonneg (t := t) hroom hr.sized hnode
  refine ⟨result, hrun, ?_, ?_⟩
  · rw [hfound]
    exact exists_congr fun L => hR.walk_iff hs ht
  · intro hyes
    obtain ⟨hd, hp⟩ := hdist hyes
    obtain ⟨points, hpoints, hpath⟩ := hR.isPath hs ht hp
    exact ⟨(hR.isDist_iff hs ht).mp hd, points, hpoints, hpath⟩

/-- On the imported grid the Dijkstra router finds a shortest way over the water between
the points of any two nodes, or reports that there is none, whatever it did before. -/
theorem createGrid_route (hlat : 0 < dimLat) (hlong : 2 < dimLong) (hT : 0 < T)
    (hdist : ∀ a b, getDistance a b = getDistance b a) (hint : ∀ a b, IsInt (getDistance a b))
    (hnn : ∀ a b, 0 ≤ getDistance a b)
    (hsmall : (4 * ((dimLat + 1) * dimLong) : Nat) ≤ MAX_VALUE)
    (hread : ReadsPlaces parseDouble showDouble dimLat dimLong)
    (horder : ∀ ks, (entryOrder ks).Perm ks)
    (hno : ∀ j, ¬ Stranded pointInWater dimLat dimLong j)
    (hfit : ∀ a b c d l, IsDist (AtSea getDistance pointInWater dimLat dimLong) a b d →
      AtSea getDistance pointInWater dimLat dimLong b c l → d + l < MAX_VALUE) :
    ∃ F, ∀ fuel, F ≤ fuel → ∃ workers,
      initGridCreator pointInWater dimLat dimLong T fuel = .ok workers ∧
      ∀ gridNodes, Interleaving workers gridNodes → ∃ N edges text g,
        createGrid getDistance dimLat dimLong gridNodes = .ok (N, edges) ∧
        exportGridAsFMIFile showDouble N edges = .ok text ∧
        Grid.importFmiFile parseDouble entryOrder text = .ok (N, g) ∧
        ∀ r, DijkstraRouter.Used g r → ∀ s t a b, IsAt gridNodes s a → IsAt gridNodes t b →
          ∃ result, DijkstraRouter.route g r s t = .ok result ∧
            ShortestAtSea (AtSea getDistance pointInWater dimLat dimLong) gridNodes a b result := by
  obtain ⟨F, hF⟩ := exists_onGrid pointInWater hlat (show 0 < dimLong by omega) hT
  refine ⟨F, ?_⟩
  intro fuel hfuel
  obtain ⟨workers, hrun, hworkers⟩ := hF fuel hfuel
  refine ⟨workers, hrun, ?_⟩
  intro gridNodes hinter
  have hgrid := hworkers gridNodes hinter
  have hcreate := createGrid_eq getDistance dimLat dimLong hgrid.nodup
  obtain ⟨text, hexport, _, hgood⟩ :=
    hgrid.imports hlat hlong hdist hint hsmall hread horder hcreate
  obtain ⟨g, I, himports, _, hedges⟩ := hgood hno
  have hw := Grid.importFmiFile_wellFormed horder himports.grid
  have hcount : g.nodeCount = gridNodes.length := by
    rw [Grid.nodeCount_of_importFmiFile horder himports.grid, List.length_map]
  refine ⟨_, _, text, g, hcreate, hexport, himports.grid, ?_⟩
  intro r hr s t a b hs ht
  exact hgrid.route hw hedges hcount hnn hfit hr hs ht

/-! ## Three points on the equator -/

/-- `String.valueOf` on integers. -/
def showInteger (x : ℚ) : List Char := valueOf x.num ++ ['.', '0']

/-- `Double.parseDouble` on the texts of integers. -/
def parseInteger (s : List Char) : Run ℚ := do
  let x ← parseInt (s.take (s.length - 2))
  return (x : ℚ)

theorem isField_showInteger (x : ℚ) : IsField (showInteger x) := by
  have hv := isField_valueOf x.num
  refine ⟨by simp [showInteger], ?_⟩
  intro c hc
  rcases List.mem_append.mp hc with hc | hc
  · exact hv.2 c hc
  · simp only [List.mem_cons, List.not_mem_nil, or_false] at hc
    cases hc with
    | inl hdot =>
      rw [hdot]
      decide
    | inr hzero =>
      rw [hzero]
      decide

theorem equator_readsPlaces : ReadsPlaces parseInteger showInteger 2 4 := by
  refine ⟨by decide, ?_⟩
  intro x hx
  refine ⟨?_, isField_showInteger x⟩
  rcases hx with ⟨j, hj, rfl⟩ | ⟨k, hk, rfl⟩
  · interval_cases j <;> decide +kernel
  · interval_cases k <;> decide +kernel

/-- Water at 180, -90 and 0 degrees on the equator. -/
def strait (lat long : ℚ) : Bool := lat = 0 && long ≠ 90

theorem strait_nodes : allNodes strait 2 4 =
    [nodeAt 2 4 1 0, nodeAt 2 4 1 2, nodeAt 2 4 1 3] := by decide +kernel

theorem strait_not_stranded (j : Nat) : ¬ Stranded strait 2 4 j := by
  intro h
  obtain ⟨hfirst, _, honly⟩ := h
  rw [strait_nodes] at hfirst honly
  simp only [List.mem_cons, List.not_mem_nil, or_false, nodeAt_inj (show 0 < 2 by decide)
    (show 0 < 4 by decide)] at hfirst
  obtain rfl : j = 1 := by omega
  have hnext : NextTo 2 4 (nodeAt 2 4 1 3) (nodeAt 2 4 1 2) := by
    rw [nextTo_nodeAt (by decide) (by decide) (by decide) (by decide)]
    exact Or.inl ⟨rfl, Or.inl (Or.inl rfl)⟩
  have heq := honly _ (by simp) hnext
  rw [nodeAt_inj (by decide) (by decide)] at heq
  omega

/-- Each of the points is at most one step away from -90 degrees. -/
theorem strait_near {a : GridNode} (ha : a ∈ allNodes strait 2 4) :
    ∃ l, l ≤ 10007543 ∧ Walk (AtSea quarter strait 2 4) a (nodeAt 2 4 1 3) l ∧
      Walk (AtSea quarter strait 2 4) (nodeAt 2 4 1 3) a l := by
  have hstep : ∀ k, nodeAt 2 4 1 k ∈ allNodes strait 2 4 →
      NextTo 2 4 (nodeAt 2 4 1 k) (nodeAt 2 4 1 3) →
      ∃ l, l ≤ 10007543 ∧ Walk (AtSea quarter strait 2 4) (nodeAt 2 4 1 k) (nodeAt 2 4 1 3) l ∧
        Walk (AtSea quarter strait 2 4) (nodeAt 2 4 1 3) (nodeAt 2 4 1 k) l := by
    intro k hk hnext
    have hlast : nodeAt 2 4 1 3 ∈ allNodes strait 2 4 := by
      rw [strait_nodes]
      simp
    exact ⟨10007543, le_refl _, Walk.single ⟨hk, hlast, hnext, rfl⟩,
      Walk.single ⟨hlast, hk, hnext.symm, rfl⟩⟩
  have hcases := ha
  rw [strait_nodes] at hcases
  simp only [List.mem_cons, List.not_mem_nil, or_false] at hcases
  rcases hcases with rfl | rfl | rfl
  · apply hstep 0 ha
    rw [nextTo_nodeAt (by decide) (by decide) (by decide) (by decide)]
    exact Or.inl ⟨rfl, Or.inl (Or.inr (Or.inr ⟨rfl, rfl⟩))⟩
  · apply hstep 2 ha
    rw [nextTo_nodeAt (by decide) (by decide) (by decide) (by decide)]
    exact Or.inl ⟨rfl, Or.inl (Or.inr (Or.inl rfl))⟩
  · exact ⟨0, by decide, Walk.nil _, Walk.nil _⟩

theorem strait_fits {a b c : GridNode} {d l : Int} (hd : IsDist (AtSea quarter strait 2 4) a b d)
    (he : AtSea quarter strait 2 4 b c l) : d + l < MAX_VALUE := by
  have hmax : (MAX_VALUE : Int) = 2147483647 := rfl
  have hl : l = 10007543 := he.2.2.2
  have hd2 : d ≤ 20015086 := by
    by_cases hab : a = b
    · subst hab
      have := hd.2 0 (Walk.nil a)
      omega
    · have ha : a ∈ allNodes strait 2 4 := by
        cases hd.1 with
        | nil => exact absurd rfl hab
        | cons hedge _ => exact hedge.1
      obtain ⟨l₁, hl₁, hto, _⟩ := strait_near ha
      obtain ⟨l₂, hl₂, _, hfrom⟩ := strait_near he.1
      have := hd.2 _ (hto.append hfrom)
      omega
  omega

theorem createGrid_joins_strait :
    ∃ F, ∀ fuel, F ≤ fuel → ∃ workers, initGridCreator strait 2 4 15 fuel = .ok workers ∧
      ∀ gridNodes, Interleaving workers gridNodes → ∃ N edges text,
        createGrid quarter 2 4 gridNodes = .ok (N, edges) ∧
        exportGridAsFMIFile showInteger N edges = .ok text ∧
        ∃ g I, Imports parseInteger id text N g I ∧ g.edges.Nodup ∧
          ∀ e, e ∈ g.edges ↔ Joins quarter 2 4 gridNodes e := by
  obtain ⟨F, hF⟩ := @createGrid_joins 2 4 15 strait quarter parseInteger showInteger id (by decide)
    (by decide) (by decide) (fun _ _ => rfl) (fun _ _ => (by decide : IsInt 10007543)) (by decide)
    equator_readsPlaces List.Perm.refl
  refine ⟨F, ?_⟩
  intro fuel hfuel
  obtain ⟨workers, hrun, hworkers⟩ := hF fuel hfuel
  refine ⟨workers, hrun, ?_⟩
  intro gridNodes hinter
  obtain ⟨N, edges, text, hcreate, hexport, _, hgood⟩ := hworkers gridNodes hinter
  exact ⟨N, edges, text, hcreate, hexport, hgood strait_not_stranded⟩

theorem createGrid_route_strait :
    ∃ F, ∀ fuel, F ≤ fuel → ∃ workers, initGridCreator strait 2 4 15 fuel = .ok workers ∧
      ∀ gridNodes, Interleaving workers gridNodes → ∃ N edges text g,
        createGrid quarter 2 4 gridNodes = .ok (N, edges) ∧
        exportGridAsFMIFile showInteger N edges = .ok text ∧
        Grid.importFmiFile parseInteger id text = .ok (N, g) ∧
        ∀ r, DijkstraRouter.Used g r → ∀ s t a b, IsAt gridNodes s a → IsAt gridNodes t b →
          ∃ result, DijkstraRouter.route g r s t = .ok result ∧
            ShortestAtSea (AtSea quarter strait 2 4) gridNodes a b result :=
  createGrid_route (by decide) (by decide) (by decide) (fun _ _ => rfl)
    (fun _ _ => (by decide : IsInt 10007543)) (fun _ _ => (by decide : (0 : Int) ≤ 10007543))
    (by decide) equator_readsPlaces (fun ks => List.Perm.refl ks) strait_not_stranded
    (fun _ _ _ _ _ => strait_fits)

end GridCreator

end SeaRouter
