import SeaRouter.DijkstraGrid.Grid
import SeaRouter.DijkstraGrid.FmiFile

/-!
# `Grid.importFmiFile` and `Grid.exportToFmiFile`

The importer fills the arrays of `Node`, `Edge` and `Grid` from what `readFmi`
returns.  `offsets_spec` says that the two loops over `offset` compute the
prefix sums of the out-degrees, and `importFmiFile_wellFormed` that an import
that returns gives the grid on which the Dijkstra router works.

The exporter writes the same format.  `exportToFmiFile_describes` says what
the written text lists, and `importFmiFile_exportToFmiFile` that reading it
back gives the same graph.
-/

namespace SeaRouter

open Java

/-- The static fields of `Node`, and the coordinates of `Nodes`. -/
structure Node (δ : Type) where
  latitude : List δ
  longitude : List δ
deriving DecidableEq, Repr

namespace Grid

open FmiFile

variable {δ : Type}

/-! ## The import -/

/-- `offset[Edge.getStart(i) + 1] += 1`. -/
def countEdge (startNode : List Int) (offset : List Int) (i : Int) : Run (List Int) := do
  let start ← rd startNode i
  wr offset (start + 1) ((← rd offset (start + 1)) + 1)

/-- `offset[i] += offset[i - 1]`. -/
def addPrevious (offset : List Int) (i : Int) : Run (List Int) := do
  wr offset i ((← rd offset i) + (← rd offset (i - 1)))

def offsets (nodeCount : Nat) (startNode : List Int) : Run (List Int) := do
  let offset := List.replicate (nodeCount + 1) 0
  let offset ← (indices 0 startNode.length).foldlM (countEdge startNode) offset
  (indices 1 offset.length).foldlM addPrevious offset

/-- The part of the import that fills the arrays. -/
def fill (r : Records δ) : Run (Node δ × Grid) := do
  let latitude ← fillFrom r.noNodes r.nodeList TmpNode.latitude
  let longitude ← fillFrom r.noNodes r.nodeList TmpNode.longitude
  let startNode ← fillFrom r.noEdges r.edgeList TmpEdge.startNode
  let destNode ← fillFrom r.noEdges r.edgeList TmpEdge.destNode
  let dist ← fillFrom r.noEdges r.edgeList TmpEdge.dist
  let nodeCount := latitude.length
  let offset ← offsets nodeCount startNode
  return ({ latitude, longitude }, { nodeCount, startNode, destNode, dist, offset })

def importFmiFile (parseDouble : List Char → Run δ) (entryOrder : List Int → List Int)
    (text : List Char) : Run (Node δ × Grid) := do
  fill (← readFmi parseDouble entryOrder text)

/-! ## The offsets -/

/-- After the first loop the out-degree of a node stands behind its place. -/
theorem countEdges_spec {nodeCount : Nat} {startNode : List Int}
    (hstart : ∀ u ∈ startNode, 0 ≤ u ∧ u < nodeCount) :
    (indices 0 startNode.length).foldlM (countEdge startNode) (List.replicate (nodeCount + 1) 0)
      = .ok ((List.range (nodeCount + 1)).map
        fun v : Nat => (startNode.countP (fun u => u + 1 = (v : Int)) : Int)) := by
  obtain ⟨offset, hrun, hoffset⟩ := foldlM_indices (f := countEdge startNode)
    (P := fun k offset => offset = (List.range (nodeCount + 1)).map
      fun v : Nat => ((startNode.take k).countP (fun u => u + 1 = (v : Int)) : Int))
    (Nat.zero_le startNode.length) (b := List.replicate (nodeCount + 1) 0)
    (by
      rw [List.map_eq_replicate_iff.mpr, List.length_range]
      intro v _
      simp) (by
      rintro k offset _ hk rfl
      have hu := hstart _ (List.getElem_mem hk)
      obtain ⟨u, hu'⟩ : ∃ u : Nat, startNode[k] + 1 = (u : Int) :=
        ⟨(startNode[k] + 1).toNat, by omega⟩
      refine ⟨_, ?_, rfl⟩
      rw [countEdge, rd_of_getElem? (List.getElem?_eq_getElem hk), ok_bind, hu',
        rd_tabulate _ (by omega), ok_bind, wr_tabulate _ (by omega)]
      congr 2
      funext v
      rw [List.take_succ_eq_append_getElem hk, List.countP_append]
      by_cases hv : v = u
      · subst hv
        simp [hu']
      · rw [Function.update_of_ne hv]
        have : (u : Int) ≠ v := by omega
        simp [hu', this])
  rw [List.take_length] at hoffset
  rw [← hoffset]
  exact hrun

/-- Below `j + 1` is what is below `j` and what is `j`. -/
theorem countP_lt_succ (l : List Int) (j : Int) :
    l.countP (fun u => u + 1 = j + 1) + l.countP (· < j) = l.countP (· < j + 1) := by
  induction l with
  | nil => rfl
  | cons u l ih =>
    rw [List.countP_cons, List.countP_cons, List.countP_cons, ← ih]
    simp only [decide_eq_true_eq]
    split_ifs <;> omega

/-- No start is below the first node. -/
theorem countP_first {startNode : List Int} (hstart : ∀ u ∈ startNode, 0 ≤ u) :
    startNode.countP (fun u => u + 1 = 0) = startNode.countP (· < 0) := by
  apply List.countP_congr
  intro u hu
  have := hstart u hu
  simp only [decide_eq_true_eq]
  omega

/-- The second loop adds up the out-degrees. -/
theorem sumOffsets_spec {nodeCount : Nat} {startNode : List Int} (hstart : ∀ u ∈ startNode, 0 ≤ u) :
    (indices 1 ((nodeCount + 1 : Nat) : Int)).foldlM addPrevious
        ((List.range (nodeCount + 1)).map
          fun v : Nat => (startNode.countP (fun u => u + 1 = (v : Int)) : Int))
      = .ok ((List.range (nodeCount + 1)).map
        fun v : Nat => (startNode.countP (· < (v : Int)) : Int)) := by
  obtain ⟨offset, hrun, hoffset⟩ := foldlM_indices (f := addPrevious)
    (P := fun i offset => offset = (List.range (nodeCount + 1)).map
      fun v : Nat => if v < i then (startNode.countP (· < (v : Int)) : Int)
        else (startNode.countP (fun u => u + 1 = (v : Int)) : Int))
    (show 1 ≤ nodeCount + 1 by omega)
    (b := (List.range (nodeCount + 1)).map
      fun v : Nat => (startNode.countP (fun u => u + 1 = (v : Int)) : Int))
    (by
      apply List.map_congr_left
      intro v _
      split_ifs with hv
      · obtain rfl : v = 0 := by omega
        rw [Nat.cast_zero, countP_first hstart]
      · rfl) (by
      rintro i offset hi hin rfl
      obtain ⟨j, rfl⟩ : ∃ j, i = j + 1 := ⟨i - 1, by omega⟩
      refine ⟨_, ?_, rfl⟩
      have hj : (((j + 1 : Nat) : Int) - 1) = (j : Int) := by push_cast; ring
      rw [addPrevious, rd_tabulate _ hin, ok_bind, hj, rd_tabulate _ (by omega), ok_bind,
        wr_tabulate _ hin, if_neg (by omega), if_pos (by omega)]
      congr 2
      funext v
      by_cases hv : v = j + 1
      · subst hv
        rw [Function.update_self, if_pos (by omega), ← Nat.cast_add]
        congr 1
        push_cast
        exact countP_lt_succ startNode j
      · rw [Function.update_of_ne hv]
        by_cases hlt : v < j + 1
        · rw [if_pos hlt, if_pos (by omega)]
        · rw [if_neg hlt, if_neg (by omega)])
  have h1 : ((1 : Nat) : Int) = 1 := rfl
  rw [h1] at hrun
  rw [hrun, hoffset]
  congr 1
  apply List.map_congr_left
  intro v hv
  rw [if_pos (List.mem_range.mp hv)]

theorem offsets_spec {nodeCount : Nat} {startNode : List Int}
    (hstart : ∀ u ∈ startNode, 0 ≤ u ∧ u < nodeCount) :
    offsets nodeCount startNode = .ok ((List.range (nodeCount + 1)).map
      fun v : Nat => (startNode.countP (· < (v : Int)) : Int)) := by
  simp only [offsets]
  rw [countEdges_spec hstart, ok_bind, List.length_map, List.length_range,
    sumOffsets_spec (fun u hu => (hstart u hu).1)]

/-! ## The arrays -/

/-- The coordinates of the nodes that were read. -/
def nodesOf (r : Records δ) : Node δ where
  latitude := r.nodeList.map TmpNode.latitude
  longitude := r.nodeList.map TmpNode.longitude

/-- The grid of the edges that were read. -/
def gridOf (r : Records δ) : Grid where
  nodeCount := r.nodeList.length
  startNode := r.edgeList.map TmpEdge.startNode
  destNode := r.edgeList.map TmpEdge.destNode
  dist := r.edgeList.map TmpEdge.dist
  offset := (List.range (r.nodeList.length + 1)).map
    fun v : Nat => ((r.edgeList.map TmpEdge.startNode).countP (· < (v : Int)) : Int)

variable {r : Records δ}

theorem fill_spec (h : Imported r) (hn : 0 ≤ r.noNodes) (he : 0 ≤ r.noEdges) :
    fill r = .ok (nodesOf r, gridOf r) := by
  have hstart : ∀ u ∈ r.edgeList.map TmpEdge.startNode, 0 ≤ u ∧ u < r.nodeList.length := by
    intro u hu
    obtain ⟨e, he, rfl⟩ := List.mem_map.mp hu
    have := (h.node e he).1
    have := h.nodes
    omega
  have hoffset := offsets_spec hstart
  simp only [fill, fillFrom_spec hn h.nodes, fillFrom_spec he h.edges, ok_bind, List.length_map,
    hoffset, pure_eq_ok]
  rfl

/-- A negative count ends the import. -/
theorem fill_negative (h : Imported r) (hneg : r.noNodes < 0 ∨ r.noEdges < 0) :
    fill r = .error .negativeArraySize := by
  by_cases hn : r.noNodes < 0
  · simp only [fill, fillFrom, if_pos hn, error_bind]
  · have he : r.noEdges < 0 := hneg.resolve_left hn
    simp only [fill, fillFrom_spec (not_lt.mp hn) h.nodes, ok_bind]
    simp only [fillFrom, if_pos he, error_bind]

theorem gridOf_wellFormed (h : Imported r) : (gridOf r).WellFormed := by
  have hnode : ∀ v : Int, 0 ≤ v ∧ v < r.noNodes → (gridOf r).IsNode v := by
    intro v hv
    have := h.nodes
    refine ⟨hv.1, ?_⟩
    simp only [gridOf]
    omega
  refine ⟨rfl, List.pairwise_map.mpr h.sorted, by simp [gridOf], by simp [gridOf], ?_, ?_⟩
  · intro u hu
    obtain ⟨e, he, rfl⟩ := List.mem_map.mp hu
    exact hnode _ (h.node e he).1
  · intro v hv
    obtain ⟨e, he, rfl⟩ := List.mem_map.mp hv
    exact hnode _ (h.node e he).2

/-- The edges in the arrays. -/
def edges (g : Grid) : List TmpEdge :=
  (g.startNode.zip (g.destNode.zip g.dist)).map fun e => ⟨e.1, e.2.1, e.2.2⟩

theorem edges_gridOf (r : Records δ) : (gridOf r).edges = r.edgeList := by
  simp only [edges, gridOf]
  induction r.edgeList with
  | nil => rfl
  | cons e l ih => simp only [List.map_cons, List.zip_cons_cons, ih]

variable {parseDouble : List Char → Run δ} {entryOrder : List Int → List Int}

/-- What an import that returns has read. -/
theorem importFmiFile_inv (horder : ∀ ks, (entryOrder ks).Perm ks) {text : List Char}
    {N : Node δ} {g : Grid} (h : importFmiFile parseDouble entryOrder text = .ok (N, g)) :
    ∃ r, readFmi parseDouble entryOrder text = .ok r ∧ Imported r ∧ 0 ≤ r.noNodes ∧
      0 ≤ r.noEdges ∧ N = nodesOf r ∧ g = gridOf r := by
  rw [importFmiFile, bind_eq_ok] at h
  obtain ⟨r, hread, hfill⟩ := h
  have himp := readFmi_imported horder hread
  by_cases hneg : r.noNodes < 0 ∨ r.noEdges < 0
  · rw [fill_negative himp hneg] at hfill
    exact absurd hfill (by simp)
  · rw [not_or, not_lt, not_lt] at hneg
    rw [fill_spec himp hneg.1 hneg.2, Except.ok.injEq, Prod.mk.injEq] at hfill
    exact ⟨r, hread, himp, hneg.1, hneg.2, hfill.1.symm, hfill.2.symm⟩

/-- Every import that returns gives a grid on which the routers work. -/
theorem importFmiFile_wellFormed (horder : ∀ ks, (entryOrder ks).Perm ks) {text : List Char}
    {N : Node δ} {g : Grid} (h : importFmiFile parseDouble entryOrder text = .ok (N, g)) :
    g.WellFormed := by
  obtain ⟨r, _, himp, _, _, _, rfl⟩ := importFmiFile_inv horder h
  exact gridOf_wellFormed himp

theorem nodeCount_of_importFmiFile (horder : ∀ ks, (entryOrder ks).Perm ks) {text : List Char}
    {N : Node δ} {g : Grid} (h : importFmiFile parseDouble entryOrder text = .ok (N, g)) :
    g.nodeCount = N.latitude.length := by
  obtain ⟨r, _, _, _, _, rfl, rfl⟩ := importFmiFile_inv horder h
  exact (List.length_map ..).symm

theorem longitude_of_importFmiFile (horder : ∀ ks, (entryOrder ks).Perm ks) {text : List Char}
    {N : Node δ} {g : Grid} (h : importFmiFile parseDouble entryOrder text = .ok (N, g)) :
    N.longitude.length = N.latitude.length := by
  obtain ⟨r, _, _, _, _, rfl, _⟩ := importFmiFile_inv horder h
  simp only [nodesOf, List.length_map]

/-! ## The export -/

/-- The line of a node. -/
def nodeLine (showDouble : δ → List Char) (N : Node δ) (nodeIdx : Int) : Run (List Char) := do
  let latitude ← rd N.latitude nodeIdx
  let longitude ← rd N.longitude nodeIdx
  return line3 (valueOf nodeIdx) (showDouble latitude) (showDouble longitude)

/-- The line of an edge. -/
def edgeLine (g : Grid) (edgeIdx : Int) : Run (List Char) := do
  let start ← rd g.startNode edgeIdx
  let dest ← rd g.destNode edgeIdx
  let dist ← rd g.dist edgeIdx
  return line3 (valueOf start) (valueOf dest) (valueOf dist)

/-- The text that is written; `showDouble` is `String.valueOf` of a `double`. -/
def exportToFmiFile (showDouble : δ → List Char) (N : Node δ) (g : Grid) : Run (List Char) := do
  let nodeLines ← (indices 0 N.latitude.length).mapM (nodeLine showDouble N)
  let edgeLines ← (indices 0 g.startNode.length).mapM (edgeLine g)
  let lines := ['#'] :: [] :: valueOf N.latitude.length :: valueOf g.startNode.length ::
    (nodeLines ++ edgeLines)
  return lines.flatMap (fun line => line ++ ['\n'])

/-- The arrays of `Node` and `Edge` hold a graph. -/
structure Holds (N : Node δ) (g : Grid) : Prop where
  longitude : N.longitude.length = N.latitude.length
  dest : g.destNode.length = g.startNode.length
  dist : g.dist.length = g.startNode.length
  node : ∀ e ∈ g.edges, (0 ≤ e.startNode ∧ e.startNode < N.latitude.length) ∧
    0 ≤ e.destNode ∧ e.destNode < N.latitude.length
  isInt : ∀ l ∈ g.dist, IsInt l
  nodesSmall : (N.latitude.length : Int) ≤ MAX_VALUE
  edgesSmall : (g.startNode.length : Int) ≤ MAX_VALUE

theorem getElem?_edges {g : Grid} {i : Nat} {e : TmpEdge} (h : g.edges[i]? = some e) :
    g.startNode[i]? = some e.startNode ∧ g.destNode[i]? = some e.destNode ∧
      g.dist[i]? = some e.dist := by
  rw [edges, List.getElem?_map, Option.map_eq_some_iff] at h
  obtain ⟨⟨u, v, l⟩, hz, rfl⟩ := h
  rw [List.getElem?_zip_eq_some, List.getElem?_zip_eq_some] at hz
  exact ⟨hz.1, hz.2.1, hz.2.2⟩

variable {N : Node δ} {g : Grid}

theorem mem_edges {u v l : Int} :
    (⟨u, v, l⟩ : TmpEdge) ∈ g.edges ↔ g.HasEdge u v l := by
  constructor
  · intro he
    obtain ⟨i, hi⟩ := List.mem_iff_getElem?.mp he
    obtain ⟨hu, hv, hl⟩ := getElem?_edges hi
    exact ⟨i, rd_of_getElem? hu, rd_of_getElem? hv, rd_of_getElem? hl⟩
  · intro he
    obtain ⟨e, hu, hv, hl⟩ := he
    apply List.mem_of_getElem? (i := e.toNat)
    rw [edges, List.getElem?_map, Option.map_eq_some_iff]
    refine ⟨(u, v, l), ?_, rfl⟩
    rw [List.getElem?_zip_eq_some, List.getElem?_zip_eq_some]
    exact ⟨(rd_eq_ok.mp hu).2, (rd_eq_ok.mp hv).2, (rd_eq_ok.mp hl).2⟩

theorem Holds.length_edges (h : Holds N g) : g.edges.length = g.startNode.length := by
  simp [edges, h.dest, h.dist]

theorem Holds.map_startNode (h : Holds N g) : g.edges.map TmpEdge.startNode = g.startNode := by
  rw [edges, List.map_map]
  exact List.map_fst_zip (by simp [h.dest, h.dist])

theorem Holds.map_destNode (h : Holds N g) : g.edges.map TmpEdge.destNode = g.destNode := by
  have hmap : (g.startNode.zip (g.destNode.zip g.dist)).map (fun e => e.2.1)
      = ((g.startNode.zip (g.destNode.zip g.dist)).map Prod.snd).map Prod.fst := by
    rw [List.map_map]
    rfl
  rw [edges, List.map_map]
  refine hmap.trans ?_
  rw [List.map_snd_zip (by simp [h.dest, h.dist]), List.map_fst_zip (by simp [h.dest, h.dist])]

theorem Holds.map_dist (h : Holds N g) : g.edges.map TmpEdge.dist = g.dist := by
  have hmap : (g.startNode.zip (g.destNode.zip g.dist)).map (fun e => e.2.2)
      = ((g.startNode.zip (g.destNode.zip g.dist)).map Prod.snd).map Prod.snd := by
    rw [List.map_map]
    rfl
  rw [edges, List.map_map]
  refine hmap.trans ?_
  rw [List.map_snd_zip (by simp [h.dest, h.dist]), List.map_snd_zip (by simp [h.dest, h.dist])]

/-- The nodes as the file lists them. -/
def nodeRecords (N : Node δ) : List (TmpNode δ) :=
  (N.latitude.zip N.longitude).zipIdx.map fun p => ⟨(p.2 : Int), p.1.1, p.1.2⟩

theorem Holds.length_nodeRecords (h : Holds N g) :
    (nodeRecords N).length = N.latitude.length := by
  simp [nodeRecords, h.longitude]

theorem getElem?_nodeRecords {i : Nat} {node : TmpNode δ} (h : (nodeRecords N)[i]? = some node) :
    node.id = i ∧ N.latitude[i]? = some node.latitude ∧
      N.longitude[i]? = some node.longitude := by
  rw [nodeRecords, List.getElem?_map, Option.map_eq_some_iff] at h
  obtain ⟨⟨⟨lat, long⟩, j⟩, hz, rfl⟩ := h
  rw [List.getElem?_zipIdx, Option.map_eq_some_iff] at hz
  obtain ⟨p, hp, hpj⟩ := hz
  rw [Prod.mk.injEq] at hpj
  obtain ⟨rfl, rfl⟩ := hpj
  rw [List.getElem?_zip_eq_some] at hp
  exact ⟨by simp, hp⟩

theorem Holds.map_id (h : Holds N g) :
    (nodeRecords N).map TmpNode.id = indices 0 N.latitude.length := by
  apply List.ext_getElem?
  intro i
  by_cases hi : i < N.latitude.length
  · have hi' : i < (nodeRecords N).length := by rw [h.length_nodeRecords]; exact hi
    rw [List.getElem?_map, List.getElem?_eq_getElem hi', Option.map_some,
      (getElem?_nodeRecords (List.getElem?_eq_getElem hi')).1]
    simp [indices, hi]
  · rw [List.getElem?_eq_none (by rw [List.length_map, h.length_nodeRecords]; omega),
      List.getElem?_eq_none (by rw [length_indices_zero]; omega)]

theorem Holds.nodup_id (h : Holds N g) : ((nodeRecords N).map TmpNode.id).Nodup := by
  rw [h.map_id, indices]
  exact List.nodup_range.map (fun a b hab => by simpa using hab)

/-- The nodes keep their numbers. -/
theorem Holds.place_eq (h : Holds N g) {v : Int} (h0 : 0 ≤ v) (h1 : v < N.latitude.length) :
    place (nodeRecords N) v = v := by
  have hi : v.toNat < (nodeRecords N).length := by rw [h.length_nodeRecords]; omega
  have hget := List.getElem?_eq_getElem hi
  have hid := (getElem?_nodeRecords hget).1
  have := place_of_getElem? h.nodup_id hget
  rw [hid, Int.toNat_of_nonneg h0] at this
  exact this

/-- The edges as the file lists them. -/
def edgeRecords (g : Grid) : List (Int × Int × Int) :=
  g.edges.map fun e => (e.startNode, e.destNode, e.dist)

theorem Holds.fileEdges_eq (h : Holds N g) :
    fileEdges (nodeRecords N) (edgeRecords g) = g.edges := by
  rw [fileEdges, edgeRecords, List.map_map]
  conv_rhs => rw [← List.map_id g.edges]
  apply List.map_congr_left
  intro e he
  have hn := h.node e he
  simp only [Function.comp_apply, internal, h.place_eq hn.1.1 hn.1.2, h.place_eq hn.2.1 hn.2.2]
  rfl

/-! ## Reading what was written -/

variable {showDouble : δ → List Char}

/-- The lines of the nodes, as they are written. -/
def nodeLines (showDouble : δ → List Char) (N : Node δ) : List (List Char) :=
  (nodeRecords N).map fun node =>
    line3 (valueOf node.id) (showDouble node.latitude) (showDouble node.longitude)

/-- The lines of the edges, as they are written. -/
def edgeLines (g : Grid) : List (List Char) :=
  g.edges.map fun e => line3 (valueOf e.startNode) (valueOf e.destNode) (valueOf e.dist)

/-- The lines of the file. -/
def fileLines (showDouble : δ → List Char) (N : Node δ) (g : Grid) : List (List Char) :=
  ['#'] :: [] :: valueOf N.latitude.length :: valueOf g.startNode.length ::
    (nodeLines showDouble N ++ edgeLines g)

theorem Holds.exportToFmiFile_eq (h : Holds N g) (showDouble : δ → List Char) :
    exportToFmiFile showDouble N g
      = .ok ((fileLines showDouble N g).flatMap (fun line => line ++ ['\n'])) := by
  have hnodes : (indices 0 N.latitude.length).mapM (nodeLine showDouble N)
      = .ok (nodeLines showDouble N) := by
    have hlen : N.latitude.length = (nodeLines showDouble N).length := by
      rw [nodeLines, List.length_map, h.length_nodeRecords]
    rw [hlen]
    apply mapM_indices
    intro i line hline
    rw [nodeLines, List.getElem?_map, Option.map_eq_some_iff] at hline
    obtain ⟨node, hnode, rfl⟩ := hline
    obtain ⟨hid, hlat, hlong⟩ := getElem?_nodeRecords hnode
    rw [nodeLine, rd_of_getElem? hlat, ok_bind, rd_of_getElem? hlong, ok_bind, hid, pure_eq_ok]
  have hedges : (indices 0 g.startNode.length).mapM (edgeLine g) = .ok (edgeLines g) := by
    have hlen : g.startNode.length = (edgeLines g).length := by
      rw [edgeLines, List.length_map, h.length_edges]
    rw [hlen]
    apply mapM_indices
    intro i line hline
    rw [edgeLines, List.getElem?_map, Option.map_eq_some_iff] at hline
    obtain ⟨e, he, rfl⟩ := hline
    obtain ⟨hstart, hdest, hdist⟩ := getElem?_edges he
    rw [edgeLine, rd_of_getElem? hstart, ok_bind, rd_of_getElem? hdest, ok_bind,
      rd_of_getElem? hdist, ok_bind, pure_eq_ok]
  rw [exportToFmiFile, hnodes, ok_bind, hedges, ok_bind, pure_eq_ok]
  rfl

/-- The coordinates of the nodes are read back as they were written. -/
def ReadsBack (parseDouble : List Char → Run δ) (showDouble : δ → List Char) (N : Node δ) : Prop :=
  ∀ x, x ∈ N.latitude ∨ x ∈ N.longitude →
    parseDouble (showDouble x) = .ok x ∧ IsField (showDouble x)

theorem ReadsBack.node (h : ReadsBack parseDouble showDouble N) {node : TmpNode δ}
    (hnode : node ∈ nodeRecords N) :
    (parseDouble (showDouble node.latitude) = .ok node.latitude ∧
        IsField (showDouble node.latitude)) ∧
      parseDouble (showDouble node.longitude) = .ok node.longitude ∧
        IsField (showDouble node.longitude) := by
  obtain ⟨i, hi⟩ := List.mem_iff_getElem?.mp hnode
  obtain ⟨_, hlat, hlong⟩ := getElem?_nodeRecords hi
  exact ⟨h _ (Or.inl (List.mem_of_getElem? hlat)), h _ (Or.inr (List.mem_of_getElem? hlong))⟩

theorem isLine_fileLines (hback : ReadsBack parseDouble showDouble N) {line : List Char}
    (h : line ∈ fileLines showDouble N g) : IsLine line := by
  simp only [fileLines, List.mem_cons, List.mem_append] at h
  rcases h with rfl | rfl | rfl | rfl | h | h
  · exact ⟨by decide, by decide⟩
  · exact ⟨by decide, by decide⟩
  · exact isLine_valueOf _
  · exact isLine_valueOf _
  · obtain ⟨node, hnode, rfl⟩ := List.mem_map.mp h
    exact isLine_line3 (isField_valueOf _) (hback.node hnode).1.2 (hback.node hnode).2.2
  · obtain ⟨e, _, rfl⟩ := List.mem_map.mp h
    exact isLine_line3 (isField_valueOf _) (isField_valueOf _) (isField_valueOf _)

theorem parseNode_line3 (hback : ReadsBack parseDouble showDouble N) {node : TmpNode δ}
    (hnode : node ∈ nodeRecords N) (hid : IsInt node.id) :
    parseNode parseDouble (trim (line3 (valueOf node.id) (showDouble node.latitude)
      (showDouble node.longitude))) = .ok node := by
  obtain ⟨⟨hlat, hflat⟩, hlong, hflong⟩ := hback.node hnode
  rw [trim_line3 (isField_valueOf _) hflong, parseNode,
    split_line3 (isField_valueOf _) hflat hflong]
  simp only [show ∀ a b c : List Char, rd [a, b, c] 0 = .ok a from fun _ _ _ => rfl,
    show ∀ a b c : List Char, rd [a, b, c] 1 = .ok b from fun _ _ _ => rfl,
    show ∀ a b c : List Char, rd [a, b, c] 2 = .ok c from fun _ _ _ => rfl, ok_bind,
    parseInt_valueOf hid, hlat, hlong, pure_eq_ok]

theorem edgeFields_line3 {a b d : Int} (ha : IsInt a) (hb : IsInt b) (hd : IsInt d) :
    edgeFields (trim (line3 (valueOf a) (valueOf b) (valueOf d))) = .ok (a, b, d) := by
  rw [trim_line3 (isField_valueOf _) (isField_valueOf _), edgeFields,
    split_line3 (isField_valueOf _) (isField_valueOf _) (isField_valueOf _)]
  simp only [show ∀ a b c : List Char, rd [a, b, c] 0 = .ok a from fun _ _ _ => rfl,
    show ∀ a b c : List Char, rd [a, b, c] 1 = .ok b from fun _ _ _ => rfl,
    show ∀ a b c : List Char, rd [a, b, c] 2 = .ok c from fun _ _ _ => rfl, ok_bind,
    parseInt_valueOf ha, parseInt_valueOf hb, parseInt_valueOf hd, pure_eq_ok]

/-- The written text lists the nodes and the edges of the graph. -/
theorem Holds.describes_of_readsBack (h : Holds N g) (hback : ReadsBack parseDouble showDouble N) :
    Describes parseDouble ((fileLines showDouble N g).flatMap (fun line => line ++ ['\n']))
      (nodeRecords N) (edgeRecords g) := by
  have hsmall : ∀ v : Int, 0 ≤ v → v < N.latitude.length → IsInt v := by
    intro v h0 h1
    have := h.nodesSmall
    rw [MAX_VALUE] at this
    exact ⟨by omega, by omega⟩
  refine ⟨⟨['#'], [], valueOf N.latitude.length, valueOf g.startNode.length,
    nodeLines showDouble N, edgeLines g, [], ?_, ?_, ?_, ?_, ?_⟩, h.nodup_id, ?_⟩
  · rw [lines_unlines _ (fun line hline => isLine_fileLines hback hline), fileLines,
      List.append_nil]
  · have hint : IsInt (N.latitude.length : Int) := ⟨by omega, h.nodesSmall⟩
    rw [trim_of_isField (isField_valueOf _), parseInt_valueOf hint, h.length_nodeRecords]
  · have hint : IsInt (g.startNode.length : Int) := ⟨by omega, h.edgesSmall⟩
    rw [trim_of_isField (isField_valueOf _), parseInt_valueOf hint, edgeRecords, List.length_map,
      h.length_edges]
  · rw [nodeLines, List.forall₂_map_left_iff, List.forall₂_same]
    intro node hnode
    have hid : node.id ∈ indices 0 N.latitude.length := by
      rw [← h.map_id]
      exact List.mem_map_of_mem hnode
    rw [mem_indices] at hid
    exact parseNode_line3 hback hnode (hsmall _ hid.1 hid.2)
  · rw [edgeLines, edgeRecords, List.forall₂_map_left_iff, List.forall₂_map_right_iff,
      List.forall₂_same]
    intro e he
    have hn := h.node e he
    have hdist : e.dist ∈ g.dist := by
      rw [← h.map_dist]
      exact List.mem_map_of_mem he
    exact edgeFields_line3 (hsmall _ hn.1.1 hn.1.2) (hsmall _ hn.2.1 hn.2.2) (h.isInt _ hdist)
  · intro e he
    obtain ⟨e', he', rfl⟩ := List.mem_map.mp he
    have hn := h.node e' he'
    rw [h.map_id]
    exact ⟨mem_indices.mpr hn.1, mem_indices.mpr hn.2⟩

theorem Holds.describes (h : Holds N g) (hparse : ∀ x, parseDouble (showDouble x) = .ok x)
    (hfield : ∀ x, IsField (showDouble x)) :
    Describes parseDouble ((fileLines showDouble N g).flatMap (fun line => line ++ ['\n']))
      (nodeRecords N) (edgeRecords g) :=
  h.describes_of_readsBack fun x _ => ⟨hparse x, hfield x⟩

/-- A symmetric list of edges is not changed by the completion. -/
theorem added_of_opposed {E : List TmpEdge} (h : ∀ e ∈ E, Opposed E e) (ks : List Int) :
    added E ks = [] := by
  apply List.eq_nil_iff_forall_not_mem.mpr
  intro a ha
  obtain ⟨e, he, hnot, _⟩ := exists_of_mem_added ha
  exact hnot (h e he)

theorem Holds.nodesOf_eq (h : Holds N g) {n m : Int} {E : List TmpEdge} :
    nodesOf ⟨n, m, nodeRecords N, E⟩ = N := by
  have hlat : (nodeRecords N).map TmpNode.latitude = N.latitude := by
    simp only [nodeRecords, List.map_map]
    have : (TmpNode.latitude ∘ fun p : (δ × δ) × Nat => (⟨(p.2 : Int), p.1.1, p.1.2⟩ : TmpNode δ))
        = Prod.fst ∘ Prod.fst := rfl
    rw [this, ← List.map_map, List.zipIdx_map_fst, List.map_fst_zip (by rw [h.longitude])]
  have hlong : (nodeRecords N).map TmpNode.longitude = N.longitude := by
    simp only [nodeRecords, List.map_map]
    have : (TmpNode.longitude ∘ fun p : (δ × δ) × Nat => (⟨(p.2 : Int), p.1.1, p.1.2⟩ : TmpNode δ))
        = Prod.snd ∘ Prod.fst := rfl
    rw [this, ← List.map_map, List.zipIdx_map_fst, List.map_snd_zip (by rw [h.longitude])]
  rw [nodesOf, hlat, hlong]

/-- The export of a symmetric graph is imported as the same graph, with its
edges sorted by their start: no node changes its number or its coordinates, no
edge is added, and edges that were sorted already keep their ids. -/
theorem importFmiFile_exportToFmiFile (hparse : ∀ x, parseDouble (showDouble x) = .ok x)
    (hfield : ∀ x, IsField (showDouble x)) (horder : ∀ ks, (entryOrder ks).Perm ks)
    (h : Holds N g) (hsymm : ∀ e ∈ g.edges, Opposed g.edges e) :
    ∃ text g', exportToFmiFile showDouble N g = .ok text ∧
      importFmiFile parseDouble entryOrder text = .ok (N, g') ∧ g'.WellFormed ∧
      g'.nodeCount = N.latitude.length ∧ g'.edges = sortBy TmpEdge.startNode g.edges ∧
      (g.startNode.Pairwise (· ≤ ·) →
        g'.startNode = g.startNode ∧ g'.destNode = g.destNode ∧ g'.dist = g.dist) := by
  have hdesc := h.describes hparse hfield
  have hans : Answering (fileEdges (nodeRecords N) (edgeRecords g)) := by
    rw [h.fileEdges_eq]
    intro e he
    obtain ⟨e', he', hopp⟩ := hsymm e he
    exact ⟨e', he', hopp.1⟩
  obtain ⟨ks, _, hread⟩ := readFmi_spec hdesc horder hans
  rw [h.fileEdges_eq, added_of_opposed hsymm, List.append_nil, List.append_nil,
    sortBy_of_sorted (sortBy_sorted _ _)] at hread
  have himp := readFmi_imported horder hread
  have hgrid := fill_spec himp (Int.natCast_nonneg _) (Int.natCast_nonneg _)
  rw [h.nodesOf_eq] at hgrid
  refine ⟨_, _, h.exportToFmiFile_eq showDouble, by rw [importFmiFile, hread, ok_bind, hgrid],
    gridOf_wellFormed himp, h.length_nodeRecords, edges_gridOf _, ?_⟩
  intro hsorted
  rw [← h.map_startNode, List.pairwise_map] at hsorted
  simp only [gridOf, sortBy_of_sorted hsorted]
  exact ⟨h.map_startNode, h.map_destNode, h.map_dist⟩

/-- `String.valueOf` on the values `0.0` to `9.0`. -/
def showDigit (x : Fin 10) : List Char := valueOf (x.val : Int) ++ ['.', '0']

/-- `Double.parseDouble` on the texts of these values. -/
def parseDigit (s : List Char) : Run (Fin 10) := do
  let x ← parseInt (s.take (s.length - 2))
  if h : x.toNat < 10 then return ⟨x.toNat, h⟩ else throw .numberFormat

theorem parseDigit_showDigit : ∀ x : Fin 10, parseDigit (showDigit x) = .ok x := by decide

theorem isField_showDigit (x : Fin 10) : IsField (showDigit x) := by
  have hv := isField_valueOf (x.val : Int)
  refine ⟨by simp [showDigit], ?_⟩
  intro c hc
  rcases List.mem_append.mp hc with hc | hc
  · exact hv.2 c hc
  · simp only [List.mem_cons, List.not_mem_nil, or_false] at hc
    cases hc with
    | inl hdot =>
      rw [hdot]
      decide
    | inr hzero =>
      rw [hzero]
      decide

/-- Two nodes that are joined and one that is not. -/
def joinedNodes : Node (Fin 10) := ⟨[4, 5, 6], [0, 1, 2]⟩

def joinedGrid : Grid := ⟨3, [1, 0], [0, 1], [7, 7], [0, 1, 2, 2]⟩

theorem importFmiFile_exportToFmiFile_joined :
    ∃ text g', exportToFmiFile showDigit joinedNodes joinedGrid = .ok text ∧
      importFmiFile parseDigit id text = .ok (joinedNodes, g') ∧ g'.WellFormed ∧
      g'.nodeCount = 3 ∧ g'.edges = sortBy TmpEdge.startNode joinedGrid.edges ∧
      (joinedGrid.startNode.Pairwise (· ≤ ·) → g'.startNode = joinedGrid.startNode ∧
        g'.destNode = joinedGrid.destNode ∧ g'.dist = joinedGrid.dist) := by
  have hnode : ∀ e ∈ joinedGrid.edges,
      (0 ≤ e.startNode ∧ e.startNode < (joinedNodes.latitude.length : Int)) ∧
        0 ≤ e.destNode ∧ e.destNode < (joinedNodes.latitude.length : Int) := by decide
  exact importFmiFile_exportToFmiFile parseDigit_showDigit isField_showDigit (fun ks => List.Perm.refl ks)
    ⟨by decide, by decide, by decide, hnode, by decide, by decide, by decide⟩ (by decide)

end Grid

end SeaRouter
