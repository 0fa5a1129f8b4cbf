import SeaRouter.DijkstraGrid.GridFile
import SeaRouter.HubLabelCreation.CalculateCH

/-!
# `DynamicGrid.importFmiFile`

The importer of the hub label creation reads the file as the other one does,
but stores the ids of the edges in one array of four entries for each node.
`fill_spec` says that it returns if and only if no node has more than four
edges.

* `importFmiFile_agrees`: when both importers return, they have built the same
  graph, with the same edge ids in the same order.
* `importFmiFile_isCompletion_iff`: for which files the stored edges are the
  file's edges together with the reverse edges that the file lacks.
-/

namespace SeaRouter

open Java

namespace DynamicGrid

open FmiFile

variable {δ : Type}

/-! ## The import -/

/-- One step of the loop that sorts the edge ids by their start. -/
def addEdgeId (startNode : List Int) (state : List (List Int) × List Int) (i : Int) :
    Run (List (List Int) × List Int) := do
  let (sortedEdges, edgeCounts) := state
  let start ← rd startNode i
  let row ← rd sortedEdges start
  let count ← rd edgeCounts start
  let row ← wr row count i
  let sortedEdges ← wr sortedEdges start row
  let edgeCounts ← wr edgeCounts start (count + 1)
  return (sortedEdges, edgeCounts)

/-- The part of the import that fills the arrays; the levels of the nodes, which
are all zero, are part of the state of the contraction. -/
def fill (r : Records δ) : Run (Node δ × InputGraph) := do
  let latitude ← fillFrom r.noNodes r.nodeList TmpNode.latitude
  let longitude ← fillFrom r.noNodes r.nodeList TmpNode.longitude
  let start ← fillFrom r.noEdges r.edgeList TmpEdge.startNode
  let dest ← fillFrom r.noEdges r.edgeList TmpEdge.destNode
  let dist ← fillFrom r.noEdges r.edgeList TmpEdge.dist
  -- at most 4 edges are connected
  let sortedEdges := List.replicate r.noNodes.toNat (List.replicate 4 0)
  let edgeCounts := List.replicate r.noNodes.toNat 0
  let (rows, counts) ← (indices 0 r.noEdges).foldlM (addEdgeId start) (sortedEdges, edgeCounts)
  return ({ latitude, longitude }, { start, dest, dist, rows, counts })

def importFmiFile (parseDouble : List Char → Run δ) (entryOrder : List Int → List Int)
    (text : List Char) : Run (Node δ × InputGraph) := do
  fill (← readFmi parseDouble entryOrder text)

/-! ## The edge ids of a node -/

/-- The indices at which `v` stands. -/
def idsOf (starts : List Int) (v : Int) : List Int :=
  (indices 0 starts.length).filter (fun i => starts[i.toNat]? = some v)

theorem idsOf_snoc (starts : List Int) (u v : Int) :
    idsOf (starts ++ [u]) v = idsOf starts v ++ if u = v then [(starts.length : Int)] else [] := by
  rw [idsOf, List.length_append, List.length_singleton, indices_zero_succ, List.filter_append]
  congr 1
  · apply List.filter_congr
    intro i hi
    have := mem_indices.mp hi
    rw [List.getElem?_append_left (by omega)]
  · simp [List.filter_cons, eq_comm]

theorem length_idsOf (starts : List Int) (v : Int) :
    (idsOf starts v).length = starts.countP (· = v) := by
  induction starts using List.reverseRecOn with
  | nil => rfl
  | append_singleton l u ih =>
    rw [idsOf_snoc, List.length_append, ih, List.countP_append]
    by_cases h : u = v <;> simp [h]

/-- In a sorted list they are the indices between two ranks. -/
theorem idsOf_sorted {starts : List Int} (hs : starts.Pairwise (· ≤ ·)) (v : Int) :
    idsOf starts v = indices (rank starts v) (rank starts (v + 1)) := by
  have hlt : ∀ lo hi : Int, (indices lo hi).Pairwise (· < ·) := by
    intro lo hi
    rw [indices, List.pairwise_map]
    exact List.pairwise_lt_range.imp (fun h => by omega)
  apply List.Pairwise.eq_of_mem_iff ((hlt _ _).filter _) (hlt _ _)
  intro i
  rw [List.mem_filter, mem_indices, mem_indices, decide_eq_true_eq]
  constructor
  · rintro ⟨⟨h0, _⟩, hget⟩
    have h1 := lt_key_iff_lt_rank_of_le hs v _ _ hget
    have h2 := lt_key_iff_lt_rank_of_le hs (v + 1) _ _ hget
    omega
  · rintro ⟨h1, h2⟩
    have hle := rank_le_length starts (v + 1)
    have h0 : 0 ≤ i := by omega
    obtain ⟨u, hu⟩ := exists_rd (a := starts) h0 (by omega)
    have hget := (rd_eq_ok.mp hu).2
    have h3 := lt_key_iff_lt_rank_of_le hs v _ _ hget
    have h4 := lt_key_iff_lt_rank_of_le hs (v + 1) _ _ hget
    obtain rfl : u = v := by omega
    exact ⟨⟨h0, by omega⟩, hget⟩

/-- The two arrays after the edges with the given starts. -/
def tables (n : Nat) (starts : List Int) : List (List Int) × List Int :=
  ((List.range n).map fun v : Nat =>
      idsOf starts v ++ List.replicate (4 - (idsOf starts v).length) 0,
    (List.range n).map fun v : Nat => ((idsOf starts v).length : Int))

theorem tables_nil (n : Nat) :
    tables n [] = (List.replicate n (List.replicate 4 0), List.replicate n 0) := by
  have h : ∀ v : Int, idsOf [] v = [] := fun v => rfl
  simp only [tables, h, List.nil_append, List.length_nil, Nat.cast_zero, Nat.sub_zero,
    List.map_const', List.length_range]

variable {n : Nat} {startNode pre post : List Int} {u : Int}

/-- The update of one entry of a table by the next edge. -/
theorem tabulate_snoc {α : Type} (n : Nat) (pre : List Int) (f : List Int → α) (w : Nat) :
    (List.range n).map (Function.update (fun v : Nat => f (idsOf pre v)) w
        (f (idsOf pre w ++ [(pre.length : Int)])))
      = (List.range n).map fun v : Nat => f (idsOf (pre ++ [(w : Int)]) v) := by
  apply List.map_congr_left
  intro v _
  by_cases hv : v = w
  · subst hv
    rw [Function.update_self, idsOf_snoc, if_pos rfl]
  · rw [Function.update_of_ne hv, idsOf_snoc, if_neg (by omega), List.append_nil]

theorem addEdgeId_spec (hsplit : startNode = pre ++ u :: post) (h0 : 0 ≤ u) (h1 : u < n) :
    addEdgeId startNode (tables n pre) (pre.length : Int)
      = if (idsOf pre u).length < 4 then .ok (tables n (pre ++ [u]))
        else .error .indexOutOfBounds := by
  obtain ⟨w, rfl⟩ : ∃ w : Nat, u = (w : Int) := ⟨u.toNat, by omega⟩
  have hw : w < n := by omega
  have hstart : rd startNode (pre.length : Int) = .ok (w : Int) := by
    rw [hsplit, rd_append_length]
  simp only [addEdgeId, tables, hstart, ok_bind, rd_tabulate _ hw]
  split_ifs with hroom
  · obtain ⟨k, hk⟩ : ∃ k, 4 - (idsOf pre w).length = k + 1 := ⟨3 - (idsOf pre w).length, by omega⟩
    have hwr : wr (idsOf pre w ++ List.replicate (4 - (idsOf pre w).length) 0)
        ((idsOf pre w).length : Int) (pre.length : Int)
        = .ok ((idsOf pre w ++ [(pre.length : Int)])
          ++ List.replicate (4 - (idsOf pre w ++ [(pre.length : Int)]).length) 0) := by
      have hk' : 4 - (idsOf pre w ++ [(pre.length : Int)]).length = k := by
        rw [List.length_append, List.length_singleton]
        omega
      rw [hk, hk', wr_of_bounds _ (by omega) (by simp), Int.toNat_natCast, List.replicate_succ]
      simp
    rw [hwr, ok_bind, wr_tabulate _ hw, ok_bind, wr_tabulate _ hw, ok_bind, pure_eq_ok]
    have hrows := tabulate_snoc n pre
      (fun ids => ids ++ List.replicate (4 - ids.length) 0) w
    have hcounts := tabulate_snoc n pre (fun ids => (ids.length : Int)) w
    rw [hrows, ← hcounts]
    simp
  · -- the row is full
    have hk : 4 - (idsOf pre w).length = 0 := by omega
    have hwr : wr (idsOf pre w ++ List.replicate (4 - (idsOf pre w).length) 0)
        ((idsOf pre w).length : Int) (pre.length : Int) = .error .indexOutOfBounds := by
      rw [hk, List.replicate_zero, List.append_nil, wr, if_neg (by omega)]
    rw [hwr, error_bind]

/-- The loop over the edges returns if and only if no row overflows. -/
theorem addEdgeIds_spec (hnode : ∀ u ∈ startNode, 0 ≤ u ∧ u < n) :
    ∀ (post pre : List Int), startNode = pre ++ post → (∀ v, (idsOf pre v).length ≤ 4) →
      (indices pre.length startNode.length).foldlM (addEdgeId startNode) (tables n pre)
        = if ∀ u ∈ startNode, (idsOf startNode u).length ≤ 4 then .ok (tables n startNode)
          else .error .indexOutOfBounds := by
  intro post
  induction post with
  | nil =>
    intro pre hsplit hpre
    rw [List.append_nil] at hsplit
    subst hsplit
    rw [indices_eq_nil (le_refl _), if_pos (fun u _ => hpre u)]
    rfl
  | cons u post ih =>
    intro pre hsplit hpre
    have hu := hnode u (by rw [hsplit]; simp)
    have hlt : (pre.length : Int) < startNode.length := by
      rw [hsplit]
      simp
    rw [indices_cons hlt, List.foldlM_cons, addEdgeId_spec hsplit hu.1 hu.2]
    by_cases hroom : (idsOf pre u).length < 4
    · have hnext := ih (pre ++ [u]) (by rw [hsplit]; simp) (by
        intro v
        rw [idsOf_snoc]
        split_ifs with huv
        · subst huv
          simp
          omega
        · simpa using hpre v)
      have hcast : ((pre ++ [u]).length : Int) = (pre.length : Int) + 1 := by simp
      rw [hcast] at hnext
      rw [if_pos hroom, ok_bind, hnext]
    · -- the node has five edges
      have hmany : ¬ ∀ u ∈ startNode, (idsOf startNode u).length ≤ 4 := by
        intro hall
        have := hall u (by rw [hsplit]; simp)
        rw [length_idsOf, hsplit, List.countP_append, ← length_idsOf] at this
        simp at this
        omega
      rw [if_neg hroom, error_bind, if_neg hmany]

/-- The graph of the edges that were read. -/
def graphOf (r : Records δ) : InputGraph where
  start := r.edgeList.map TmpEdge.startNode
  dest := r.edgeList.map TmpEdge.destNode
  dist := r.edgeList.map TmpEdge.dist
  rows := (tables r.nodeList.length (r.edgeList.map TmpEdge.startNode)).1
  counts := (tables r.nodeList.length (r.edgeList.map TmpEdge.startNode)).2

variable {r : Records δ}

/-- No node has more than four of the edges. -/
def FourEach (E : List TmpEdge) : Prop := ∀ v, (outgoing E v).length ≤ 4

theorem fourEach_iff {E : List TmpEdge} : FourEach E ↔
    ∀ u ∈ E.map TmpEdge.startNode, (idsOf (E.map TmpEdge.startNode) u).length ≤ 4 := by
  have hlen : ∀ v, (idsOf (E.map TmpEdge.startNode) v).length = (outgoing E v).length := by
    intro v
    rw [length_idsOf, List.countP_map, List.countP_eq_length_filter]
    rfl
  simp only [hlen]
  constructor
  · intro h u _
    exact h u
  · intro h v
    by_cases hv : v ∈ E.map TmpEdge.startNode
    · exact h v hv
    · have hnil : outgoing E v = [] := by
        rw [outgoing, List.filter_eq_nil_iff]
        intro e he hs
        rw [decide_eq_true_eq] at hs
        exact hv (List.mem_map.mpr ⟨e, he, hs⟩)
      rw [hnil]
      exact Nat.zero_le 4

theorem fill_spec (h : Imported r) (hn : 0 ≤ r.noNodes) (he : 0 ≤ r.noEdges) :
    (FourEach r.edgeList → fill r = .ok (Grid.nodesOf r, graphOf r)) ∧
      (¬ FourEach r.edgeList → fill r = .error .indexOutOfBounds) := by
  have hnode : ∀ u ∈ r.edgeList.map TmpEdge.startNode, 0 ≤ u ∧ u < r.nodeList.length := by
    intro u hu
    obtain ⟨e, he, rfl⟩ := List.mem_map.mp hu
    have := (h.node e he).1
    have := h.nodes
    omega
  have hrun := addEdgeIds_spec hnode _ [] rfl (fun v => Nat.zero_le 4)
  have hlen : ((r.edgeList.map TmpEdge.startNode).length : Int) = r.noEdges := by
    rw [List.length_map, h.edges]
    omega
  rw [hlen, tables_nil, h.nodes] at hrun
  have hfill : fill r = (if ∀ u ∈ r.edgeList.map TmpEdge.startNode,
      (idsOf (r.edgeList.map TmpEdge.startNode) u).length ≤ 4 then
        .ok (tables r.noNodes.toNat (r.edgeList.map TmpEdge.startNode))
      else .error .indexOutOfBounds : Run (List (List Int) × List Int)) >>= fun tables =>
        .ok (Grid.nodesOf r, { graphOf r with rows := tables.1, counts := tables.2 }) := by
    have h0 : (([] : List Int).length : Int) = 0 := rfl
    rw [h0] at hrun
    simp only [fill, fillFrom_spec hn h.nodes, fillFrom_spec he h.edges, ok_bind, hrun, pure_eq_ok]
    rfl
  constructor
  · intro hfour
    rw [hfill, if_pos (fourEach_iff.mp hfour), ok_bind, ← h.nodes]
    rfl
  · intro hfour
    rw [hfill, if_neg (fun hall => hfour (fourEach_iff.mpr hall)), error_bind]

theorem fill_negative (h : Imported r) (hneg : r.noNodes < 0 ∨ r.noEdges < 0) :
    fill r = .error .negativeArraySize := by
  by_cases hn : r.noNodes < 0
  · simp only [fill, fillFrom, if_pos hn, error_bind]
  · have he : r.noEdges < 0 := hneg.resolve_left hn
    simp only [fill, fillFrom_spec (not_lt.mp hn) h.nodes, ok_bind]
    simp only [fillFrom, if_pos he, error_bind]

variable {parseDouble : List Char → Run δ} {entryOrder : List Int → List Int}

theorem importFmiFile_inv (horder : ∀ ks, (entryOrder ks).Perm ks) {text : List Char}
    {N : Node δ} {I : InputGraph} (h : importFmiFile parseDouble entryOrder text = .ok (N, I)) :
    ∃ r, readFmi parseDouble entryOrder text = .ok r ∧ Imported r ∧ 0 ≤ r.noNodes ∧
      0 ≤ r.noEdges ∧ FourEach r.edgeList ∧ N = Grid.nodesOf r ∧ I = graphOf r := by
  rw [importFmiFile, bind_eq_ok] at h
  obtain ⟨r, hread, hfill⟩ := h
  have himp := readFmi_imported horder hread
  by_cases hneg : r.noNodes < 0 ∨ r.noEdges < 0
  · rw [fill_negative himp hneg] at hfill
    exact absurd hfill (by simp)
  · rw [not_or, not_lt, not_lt] at hneg
    by_cases hfour : FourEach r.edgeList
    · rw [(fill_spec himp hneg.1 hneg.2).1 hfour, Except.ok.injEq, Prod.mk.injEq] at hfill
      exact ⟨r, hread, himp, hneg.1, hneg.2, hfour, hfill.1.symm, hfill.2.symm⟩
    · rw [(fill_spec himp hneg.1 hneg.2).2 hfour] at hfill
      exact absurd hfill (by simp)

/-! ## The two importers agree -/

/-- When both importers return, they have the same nodes and the same edges, and
the ids in the row of a node are those between its two offsets, in order: the
edges that start in the node. -/
theorem importFmiFile_agrees (horder : ∀ ks, (entryOrder ks).Perm ks) {text : List Char}
    {N N' : Node δ} {g : Grid} {I : InputGraph}
    (hg : Grid.importFmiFile parseDouble entryOrder text = .ok (N, g))
    (hI : importFmiFile parseDouble entryOrder text = .ok (N', I)) :
    N' = N ∧ I.start = g.startNode ∧ I.dest = g.destNode ∧ I.dist = g.dist ∧
      I.rows.length = g.nodeCount ∧
      ∀ v : Int, 0 ≤ v → v < g.nodeCount → ∃ row count lo hi,
        rd I.grid.currentEdgeIds v = .ok row ∧ rd I.grid.currentEdgeCount v = .ok count ∧
        rd g.offset v = .ok lo ∧ rd g.offset (v + 1) = .ok hi ∧
        count = hi - lo ∧ row.take count.toNat = indices lo hi ∧
        ∀ e, e ∈ indices lo hi ↔ rd g.startNode e = .ok v := by
  obtain ⟨r, hread, himp, _, _, rfl, rfl⟩ := Grid.importFmiFile_inv horder hg
  obtain ⟨r', hread', _, _, _, hfour, rfl, rfl⟩ := importFmiFile_inv horder hI
  obtain rfl : r' = r := Except.ok.inj (hread'.symm.trans hread)
  have hw := Grid.gridOf_wellFormed himp
  refine ⟨rfl, rfl, rfl, rfl, by simp [graphOf, tables, Grid.gridOf], ?_⟩
  intro v h0 h1
  have hids := idsOf_sorted hw.grouped v
  obtain ⟨w, rfl⟩ : ∃ w : Nat, v = (w : Int) := ⟨v.toNat, by omega⟩
  have hw' : w < r'.nodeList.length := by
    simp only [Grid.gridOf] at h1
    omega
  refine ⟨_, _, _, _, rd_tabulate _ hw', rd_tabulate _ hw', hw.rd_offset h0 (by omega),
    hw.rd_offset (by omega) (by omega), ?_, ?_, ?_⟩
  · have hlen := congrArg List.length hids
    simp only [Grid.gridOf] at hlen ⊢
    rw [hlen]
    have hmono : rank (r'.edgeList.map TmpEdge.startNode) w
        ≤ rank (r'.edgeList.map TmpEdge.startNode) ((w : Int) + 1) := by
      apply List.countP_mono_left
      intro u _ hu
      simp only [decide_eq_true_eq] at hu ⊢
      omega
    simp only [indices, List.length_map, List.length_range]
    omega
  · rw [Int.toNat_natCast, List.take_left]
    exact hids
  · intro e
    constructor
    · intro he
      obtain ⟨_, _, hstart, _⟩ := hw.exists_edge he
      exact hstart
    · exact fun he => hw.mem_indices_of_start he

/-- Three nodes; the file has the edge from 2 to 1 in one direction only. -/
def oneWayNodes : Node (Fin 10) := Grid.joinedNodes

def oneWayGrid : Grid := ⟨3, [0, 1, 2], [1, 0, 1], [3, 3, 4], [0, 1, 2, 3]⟩

/-- The text of this file. -/
def oneWayText : List Char :=
  (Grid.fileLines Grid.showDigit oneWayNodes oneWayGrid).flatMap (fun line => line ++ ['\n'])

theorem importFmiFile_agrees_oneWay :
    ∃ N N' g I, Grid.importFmiFile Grid.parseDigit id oneWayText = .ok (N, g) ∧
      importFmiFile Grid.parseDigit id oneWayText = .ok (N', I) ∧
      N' = N ∧ I.start = g.startNode ∧ I.dest = g.destNode ∧ I.dist = g.dist ∧
      I.rows.length = g.nodeCount ∧
      ∀ v : Int, 0 ≤ v → v < g.nodeCount → ∃ row count lo hi,
        rd I.grid.currentEdgeIds v = .ok row ∧ rd I.grid.currentEdgeCount v = .ok count ∧
        rd g.offset v = .ok lo ∧ rd g.offset (v + 1) = .ok hi ∧
        count = hi - lo ∧ row.take count.toNat = indices lo hi ∧
        ∀ e, e ∈ indices lo hi ↔ rd g.startNode e = .ok v := by
  obtain ⟨⟨N, g⟩, hg, _⟩ := exists_of_map_toOption
    (x := Grid.importFmiFile Grid.parseDigit id oneWayText) (p := fun _ => true)
    (by decide +kernel)
  obtain ⟨⟨N', I⟩, hI, _⟩ := exists_of_map_toOption
    (x := importFmiFile Grid.parseDigit id oneWayText) (p := fun _ => true) (by decide +kernel)
  exact ⟨N, N', g, I, hg, hI, importFmiFile_agrees (fun ks => List.Perm.refl ks) hg hI⟩

/-! ## The symmetric completion -/

/-- The stored edges `S` are the edges `E` of a file and reverse edges that the
file lacks, and each stored edge has a reverse. -/
structure IsCompletion (E S : List TmpEdge) : Prop where
  added : ∃ A, S.Perm (E ++ A) ∧ ∀ a ∈ A, ∃ e ∈ E, ¬ Opposed E e ∧ a = reverse e
  symm : ∀ e ∈ S, Opposed S e

/-- Each destination has edges of its own, and an edge without a reverse, or
another one with its two nodes, stands in front of the first edge of the same
start that has a reverse. -/
structure Completable (E : List TmpEdge) : Prop where
  answering : Answering E
  early : ∀ e ∈ E, ¬ Opposed E e → ∃ x ∈ unanswered E e.startNode, x.destNode = e.destNode

instance (E : List TmpEdge) : Decidable (Completable E) :=
  decidable_of_iff (Answering E ∧ ∀ e ∈ E, ¬ Opposed E e →
      ∃ x ∈ unanswered E e.startNode, x.destNode = e.destNode)
    ⟨fun h => ⟨h.1, h.2⟩, fun h => ⟨h.answering, h.early⟩⟩

/-- The edges of `v`: those that start in `v` in the file, and the reverse edges
of those that lead to `v` and stand in front of the first edge of their start
that has a reverse. -/
def degree (E : List TmpEdge) (v : Int) : Nat :=
  (outgoing E v).length +
    ((E.map TmpEdge.startNode).dedup.flatMap (unanswered E)).countP (fun e => e.destNode = v)

variable {E : List TmpEdge} {ks : List Int}

theorem mem_unanswered {k : Int} {e : TmpEdge} (h : e ∈ unanswered E k) :
    e ∈ E ∧ e.startNode = k := by
  have := (List.takeWhile_sublist _).subset h
  rw [outgoing, List.mem_filter, decide_eq_true_eq] at this
  exact this

theorem mem_added_of_unanswered (hks : Starts E ks) {k : Int} {e : TmpEdge}
    (h : e ∈ unanswered E k) : reverse e ∈ added E ks := by
  have hE := mem_unanswered h
  exact List.mem_map_of_mem
    (List.mem_flatMap.mpr ⟨k, (hks.mem_iff k).mpr ⟨e, hE.1, hE.2⟩, h⟩)

/-- The stored edges are a completion if and only if the file is one of the
completable ones. -/
theorem isCompletion_iff (hks : Starts E ks) (hans : Answering E) {S : List TmpEdge}
    (hS : S.Perm (E ++ added E ks)) : IsCompletion E S ↔ Completable E := by
  constructor
  · intro h
    refine ⟨hans, ?_⟩
    intro e he hnot
    obtain ⟨e', he', hopp⟩ := h.symm e (hS.mem_iff.mpr (List.mem_append_left _ he))
    rcases List.mem_append.mp (hS.mem_iff.mp he') with he' | he'
    · exact absurd ⟨e', he', hopp⟩ hnot
    · obtain ⟨x, hx, rfl⟩ := List.mem_map.mp he'
      obtain ⟨k, _, hx⟩ := List.mem_flatMap.mp hx
      have hk : x.startNode = k := (mem_unanswered hx).2
      have hdest : x.destNode = e.destNode := hopp.1
      have hstart : x.startNode = e.startNode := hopp.2
      rw [← hk, hstart] at hx
      exact ⟨x, hx, hdest⟩
  · intro h
    refine ⟨⟨added E ks, hS, fun a ha => exists_of_mem_added ha⟩, ?_⟩
    intro e he
    rcases List.mem_append.mp (hS.mem_iff.mp he) with he | he
    · by_cases hopp : Opposed E e
      · obtain ⟨e', he', hopp⟩ := hopp
        exact ⟨e', hS.mem_iff.mpr (List.mem_append_left _ he'), hopp⟩
      · obtain ⟨x, hx, hdest⟩ := h.early e he hopp
        have hstart := (mem_unanswered hx).2
        exact ⟨reverse x, hS.mem_iff.mpr (List.mem_append_right _ (mem_added_of_unanswered hks hx)),
          hdest, hstart⟩
    · obtain ⟨x, hx, _, rfl⟩ := exists_of_mem_added he
      exact ⟨x, hS.mem_iff.mpr (List.mem_append_left _ hx), rfl, rfl⟩

theorem length_outgoing (hks : Starts E ks) {S : List TmpEdge} (hS : S.Perm (E ++ added E ks))
    (v : Int) : (outgoing S v).length = degree E v := by
  have hperm : ks.Perm (E.map TmpEdge.startNode).dedup := by
    rw [List.perm_ext_iff_of_nodup hks.nodup (List.nodup_dedup _)]
    intro k
    rw [hks.mem_iff, List.mem_dedup, List.mem_map]
  have hcount : (added E ks).countP (fun e => e.startNode = v)
      = (ks.flatMap (unanswered E)).countP (fun e => e.destNode = v) := by
    rw [added, List.countP_map]
    rfl
  rw [outgoing, ← List.countP_eq_length_filter, hS.countP_eq, List.countP_append, hcount, degree,
    outgoing, ← List.countP_eq_length_filter, (hperm.flatMap_right (unanswered E)).countP_eq]

/-- The edges in the arrays. -/
def edgesOf (I : InputGraph) : List TmpEdge :=
  (I.start.zip (I.dest.zip I.dist)).map fun e => ⟨e.1, e.2.1, e.2.2⟩

theorem edgesOf_graphOf (r : Records δ) : edgesOf (graphOf r) = r.edgeList :=
  Grid.edges_gridOf r

variable {text : List Char} {nodes : List (TmpNode δ)} {edges : List (Int × Int × Int)}

theorem grid_isCompletion_iff (h : Describes parseDouble text nodes edges)
    (horder : ∀ ks, (entryOrder ks).Perm ks) :
    (∃ N g, Grid.importFmiFile parseDouble entryOrder text = .ok (N, g) ∧
      IsCompletion (fileEdges nodes edges) g.edges) ↔ Completable (fileEdges nodes edges) := by
  by_cases hans : Answering (fileEdges nodes edges)
  · obtain ⟨ks, hks, hread⟩ := readFmi_spec h horder hans
    have himp := readFmi_imported horder hread
    have hfill := Grid.fill_spec himp (Int.natCast_nonneg _) (Int.natCast_nonneg _)
    have hiff := isCompletion_iff hks hans
      ((sortBy_perm TmpEdge.startNode _).trans ((sortBy_perm TmpEdge.startNode _).append_right _))
    rw [Grid.importFmiFile, hread, ok_bind, hfill, ← hiff]
    constructor
    · rintro ⟨N, g, hok, hc⟩
      obtain ⟨rfl, rfl⟩ := Prod.mk.inj (Except.ok.inj hok)
      rwa [Grid.edges_gridOf] at hc
    · intro hc
      exact ⟨_, _, rfl, by rwa [Grid.edges_gridOf]⟩
  · constructor
    · rintro ⟨N, g, hok, _⟩
      rw [Grid.importFmiFile, readFmi_error h horder hans] at hok
      exact absurd hok (by simp)
    · exact fun hc => absurd hc.answering hans

theorem dynamic_isCompletion_iff (h : Describes parseDouble text nodes edges)
    (horder : ∀ ks, (entryOrder ks).Perm ks) :
    (∃ N I, importFmiFile parseDouble entryOrder text = .ok (N, I) ∧
      IsCompletion (fileEdges nodes edges) (edgesOf I)) ↔
      Completable (fileEdges nodes edges) ∧ ∀ v, degree (fileEdges nodes edges) v ≤ 4 := by
  by_cases hans : Answering (fileEdges nodes edges)
  · obtain ⟨ks, hks, hread⟩ := readFmi_spec h horder hans
    have himp := readFmi_imported horder hread
    have hfill := fill_spec himp (Int.natCast_nonneg _) (Int.natCast_nonneg _)
    have hperm := (sortBy_perm TmpEdge.startNode (sortBy TmpEdge.startNode (fileEdges nodes edges)
      ++ added (fileEdges nodes edges) ks)).trans
      ((sortBy_perm TmpEdge.startNode (fileEdges nodes edges)).append_right _)
    have hiff := isCompletion_iff hks hans hperm
    have hfour : FourEach (sortBy TmpEdge.startNode (sortBy TmpEdge.startNode
        (fileEdges nodes edges) ++ added (fileEdges nodes edges) ks)) ↔
        ∀ v, degree (fileEdges nodes edges) v ≤ 4 := by
      simp only [FourEach, length_outgoing hks hperm]
    rw [importFmiFile, hread, ok_bind, ← hiff, ← hfour]
    constructor
    · rintro ⟨N, I, hok, hc⟩
      by_cases hmany : FourEach (sortBy TmpEdge.startNode (sortBy TmpEdge.startNode
        (fileEdges nodes edges) ++ added (fileEdges nodes edges) ks))
      · rw [hfill.1 hmany] at hok
        obtain ⟨rfl, rfl⟩ := Prod.mk.inj (Except.ok.inj hok)
        rw [edgesOf_graphOf] at hc
        exact ⟨hc, hmany⟩
      · rw [hfill.2 hmany] at hok
        exact absurd hok (by simp)
    · rintro ⟨hc, hmany⟩
      exact ⟨_, _, hfill.1 hmany, by rwa [edgesOf_graphOf]⟩
  · constructor
    · rintro ⟨N, I, hok, _⟩
      rw [importFmiFile, readFmi_error h horder hans] at hok
      exact absurd hok (by simp)
    · exact fun hc => absurd hc.1.answering hans

/-- For which files the importers return and store the symmetric completion. -/
theorem importFmiFile_isCompletion_iff (h : Describes parseDouble text nodes edges)
    (horder : ∀ ks, (entryOrder ks).Perm ks) :
    ((∃ N g, Grid.importFmiFile parseDouble entryOrder text = .ok (N, g) ∧
        IsCompletion (fileEdges nodes edges) g.edges) ↔ Completable (fileEdges nodes edges)) ∧
      ((∃ N I, importFmiFile parseDouble entryOrder text = .ok (N, I) ∧
        IsCompletion (fileEdges nodes edges) (edgesOf I)) ↔
        Completable (fileEdges nodes edges) ∧ ∀ v, degree (fileEdges nodes edges) v ≤ 4) :=
  ⟨grid_isCompletion_iff h horder, dynamic_isCompletion_iff h horder⟩

/-- What the text of a small graph lists. -/
theorem describes_digits {N : Node (Fin 10)} {g : Grid} (h : Grid.Holds N g) :
    Describes Grid.parseDigit
      ((Grid.fileLines Grid.showDigit N g).flatMap (fun line => line ++ ['\n']))
      (Grid.nodeRecords N) (Grid.edgeRecords g) :=
  h.describes Grid.parseDigit_showDigit Grid.isField_showDigit

theorem oneWay_holds : Grid.Holds oneWayNodes oneWayGrid := by
  have hnode : ∀ e ∈ oneWayGrid.edges,
      (0 ≤ e.startNode ∧ e.startNode < (oneWayNodes.latitude.length : Int)) ∧
        0 ≤ e.destNode ∧ e.destNode < (oneWayNodes.latitude.length : Int) := by decide
  exact ⟨by decide, by decide, by decide, hnode, by decide, by decide, by decide⟩

theorem importFmiFile_isCompletion_iff_oneWay :
    ((∃ N g, Grid.importFmiFile Grid.parseDigit id oneWayText = .ok (N, g) ∧
        IsCompletion oneWayGrid.edges g.edges) ↔ Completable oneWayGrid.edges) ∧
      ((∃ N I, importFmiFile Grid.parseDigit id oneWayText = .ok (N, I) ∧
        IsCompletion oneWayGrid.edges (edgesOf I)) ↔
        Completable oneWayGrid.edges ∧ ∀ v, degree oneWayGrid.edges v ≤ 4) := by
  have h := importFmiFile_isCompletion_iff (describes_digits oneWay_holds)
    (fun ks => List.Perm.refl (id ks))
  rw [oneWay_holds.fileEdges_eq] at h
  exact h

example : Completable oneWayGrid.edges := by decide

/-- The edge from 0 to 2 has no reverse and comes after one that has. -/
def lateGrid : Grid := ⟨3, [0, 1, 0, 2, 1], [1, 0, 2, 1, 2], [3, 3, 4, 5, 5], [0, 2, 4, 5]⟩

theorem late_holds : Grid.Holds oneWayNodes lateGrid := by
  have hnode : ∀ e ∈ lateGrid.edges,
      (0 ≤ e.startNode ∧ e.startNode < (oneWayNodes.latitude.length : Int)) ∧
        0 ≤ e.destNode ∧ e.destNode < (oneWayNodes.latitude.length : Int) := by decide
  exact ⟨by decide, by decide, by decide, hnode, by decide, by decide, by decide⟩

/-- The text of this file. -/
def lateText : List Char :=
  (Grid.fileLines Grid.showDigit oneWayNodes lateGrid).flatMap (fun line => line ++ ['\n'])

/-- A well-formed file after whose import the edge from 0 to 2 has no reverse. -/
theorem late_not_isCompletion :
    ∃ nodes edges, Describes Grid.parseDigit lateText nodes edges ∧
      (∃ N g, Grid.importFmiFile Grid.parseDigit id lateText = .ok (N, g) ∧
        ¬ IsCompletion (fileEdges nodes edges) g.edges) ∧
      ∃ N I, importFmiFile Grid.parseDigit id lateText = .ok (N, I) ∧
        ¬ IsCompletion (fileEdges nodes edges) (edgesOf I) := by
  have hdesc := describes_digits late_holds
  have hperm : ∀ ks : List Int, (id ks).Perm ks := fun ks => List.Perm.refl ks
  have hnot : ¬ Completable lateGrid.edges := by decide
  rw [← late_holds.fileEdges_eq] at hnot
  refine ⟨_, _, hdesc, ?_, ?_⟩
  · obtain ⟨⟨N, g⟩, hg, _⟩ := exists_of_map_toOption
      (x := Grid.importFmiFile Grid.parseDigit id lateText) (p := fun _ => true)
      (by decide +kernel)
    exact ⟨N, g, hg, fun hc => hnot ((grid_isCompletion_iff hdesc hperm).mp ⟨N, g, hg, hc⟩)⟩
  · obtain ⟨⟨N, I⟩, hI, _⟩ := exists_of_map_toOption
      (x := importFmiFile Grid.parseDigit id lateText) (p := fun _ => true) (by decide +kernel)
    exact ⟨N, I, hI,
      fun hc => hnot ((dynamic_isCompletion_iff hdesc hperm).mp ⟨N, I, hI, hc⟩).1⟩

end DynamicGrid

end SeaRouter
