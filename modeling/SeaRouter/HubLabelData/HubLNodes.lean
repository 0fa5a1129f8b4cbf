import SeaRouter.HubLabelCreation.NodeLabels
import SeaRouter.HubLabelCreation.WitnessSearch
import SeaRouter.HubLabelData.HubLEdges
import SeaRouter.Lib.Rows
import SeaRouter.Lib.Text

/-!
# `hublabeldata/HubLNodes.java`

The nodes as the router keeps them: the edges to higher levels of the nodes
without labels and the labels of the others, all in one array with an offset
for each node.  The edges are cut out of the lists of the grid in place, and
the labels take the way over a text file.  The coordinates are left out.

`initEdgeInfo_spec` and `initLabelInfo_spec` say what the arrays then hold, and
`serializeHubLData_spec` that the router has the same data as the calculation.
-/

namespace SeaRouter

open Java

/-- The static fields of `HubLNodes`. -/
structure HubLNodes where
  hlLevel : Int
  levels : List Int
  edgesOffset : List Int
  edges : List Int
  labelOffset : List Int
  labelNode : List Int
  labelEdge : List Int
  labelDist : List Int
deriving DecidableEq, Repr

namespace HubLNodes

def getLabelNode (N : HubLNodes) (idx : Int) : Run Int := rd N.labelNode idx

def getLabelEdge (N : HubLNodes) (idx : Int) : Run Int := rd N.labelEdge idx

def getLabelDist (N : HubLNodes) (idx : Int) : Run Int := rd N.labelDist idx

def nodeHasLabels (N : HubLNodes) (nodeId : Int) : Run Bool := do
  return decide (N.hlLevel ≤ (← rd N.levels nodeId))

def getLabelOffset (N : HubLNodes) (nodeId : Int) : Run Int := rd N.labelOffset nodeId

def getEdgeOffset (N : HubLNodes) (nodeId : Int) : Run Int := rd N.edgesOffset nodeId

def getEdge (N : HubLNodes) (idx : Int) : Run Int := rd N.edges idx

/-- Nothing is there yet. -/
def empty : HubLNodes where
  hlLevel := 0
  levels := []
  edgesOffset := []
  edges := []
  labelOffset := []
  labelNode := []
  labelEdge := []
  labelDist := []

def initHlLvl (N : HubLNodes) (lvl : Int) : HubLNodes := { N with hlLevel := lvl }

/-- `initNodeData()`, with the levels of `Nodes`. -/
def initNodeData (N : HubLNodes) (levels : List Int) : HubLNodes := { N with levels := levels }

/-! ## `initEdgeInfo` -/

/-- The variables of the loop over the edges of one node. -/
structure Trimming where
  edgeArray : List Int
  edgeCount : Int
  j : Int
  totalEdgeLen : Int

/-- One iteration of that loop. -/
def trimStep (E : Edges) (levels : List Int) (nodeLvl : Int) (s : Trimming) : Run Trimming := do
  let destLvl ← rd levels (← E.getDest (← rd s.edgeArray s.j))
  if destLvl ≤ nodeLvl then
    -- delete edge
    let edgeCount := s.edgeCount - 1
    let edgeArray ← arraycopy s.edgeArray (s.j + 1) s.edgeArray s.j (edgeCount - s.j)
    return { s with edgeArray := edgeArray, edgeCount := edgeCount }
  else return { s with totalEdgeLen := s.totalEdgeLen + 1, j := s.j + 1 }

/-- The variables of the loop over the nodes. -/
structure EdgeInfo where
  currentGrid : List (List Int)
  edgeCounts : List Int
  totalEdgeLen : Int

/-- The edges of node `i`: those of a node with labels are dropped, of the others
only the ones to higher levels stay. -/
def trimNode (E : Edges) (N : HubLNodes) (s : EdgeInfo) (i : Int) : Run EdgeInfo := do
  let nodeLvl ← rd N.levels i
  if N.hlLevel ≤ nodeLvl then
    -- for these nodes, we store labels, not edges
    let currentGrid ← wr s.currentGrid i []
    let edgeCounts ← wr s.edgeCounts i 0
    return { s with currentGrid := currentGrid, edgeCounts := edgeCounts }
  else
    let edgeCount ← rd s.edgeCounts i
    let edgeArray ← rd s.currentGrid i
    -- each iteration takes one edge, so there are as many as there are edges
    let t ← whileLoop (fun t => return decide (t.j < t.edgeCount)) (trimStep E N.levels nodeLvl)
      edgeCount.toNat { edgeArray, edgeCount, j := 0, totalEdgeLen := s.totalEdgeLen }
    let currentGrid ← wr s.currentGrid i t.edgeArray
    let edgeCounts ← wr s.edgeCounts i t.edgeCount
    return { currentGrid, edgeCounts, totalEdgeLen := t.totalEdgeLen }

/-- The variables of the loop that fills the arrays. -/
structure Filling where
  edgesOffset : List Int
  edges : List Int
  nextOffset : Int

def fillStep (info : EdgeInfo) (s : Filling) (i : Int) : Run Filling := do
  let nextEdgeCount ← rd info.edgeCounts i
  let edgesOffset ← wr s.edgesOffset i s.nextOffset
  if nextEdgeCount ≠ 0 then
    let edges ← arraycopy (← rd info.currentGrid i) 0 s.edges s.nextOffset nextEdgeCount
    return { edgesOffset, edges, nextOffset := s.nextOffset + nextEdgeCount }
  else return { s with edgesOffset := edgesOffset }

/-- `initEdgeInfo()`, with the static fields of `Edges` and `DynamicGrid`.  The
check that `initNodeData` was called before is left out. -/
def initEdgeInfo (N : HubLNodes) (E : Edges) (D : DynamicGrid) : Run HubLNodes := do
  let nodeCount := D.allEdgeCount.length
  let info ← (indices 0 nodeCount).foldlM (trimNode E N)
    { currentGrid := D.allEdgeIds, edgeCounts := D.allEdgeCount, totalEdgeLen := 0 }
  -- one more element, as final element makes it easier to iterate over the edges of the last node
  let s ← (indices 0 nodeCount).foldlM (fillStep info)
    { edgesOffset := List.replicate (nodeCount + 1) 0
      edges := List.replicate info.totalEdgeLen.toNat 0
      nextOffset := 0 }
  let edgesOffset ← wr s.edgesOffset nodeCount s.nextOffset
  return { N with edgesOffset := edgesOffset, edges := s.edges }

/-! ## `initLabelInfo` -/

/-- The line that `writer.write(x + "\n")` writes. -/
def writeLine (text : List Char) (x : Int) : List Char := text ++ (valueOf x ++ ['\n'])

/-- The variables of the loop that writes the labels. -/
structure Writing where
  labelOffset : List Int
  nextOffset : Int
  text : List Char

/-- The three lines of label `j`. -/
def writeLabel (nodes : List Int) (edges dist : Option (List Int)) (text : List Char) (j : Int) :
    Run (List Char) := do
  let text := writeLine text (← rd nodes j)
  let text := writeLine text (← rd (← Labels.deref edges) j)
  return writeLine text (← rd (← Labels.deref dist) j)

def writeNode (L : Labels) (s : Writing) (i : Int) : Run Writing := do
  let labelOffset ← wr s.labelOffset i s.nextOffset
  match ← rd L.labelNodes i with
  | none => return { s with labelOffset := labelOffset }
  | some nodes =>
    let edges ← rd L.labelEdges i
    let dist ← rd L.labelDist i
    let text ← (indices 0 nodes.length).foldlM (writeLabel nodes edges dist) s.text
    return { labelOffset, nextOffset := s.nextOffset + nodes.length, text }

/-- The variables of the loop that reads the labels back; `rest` are the lines
that were not read yet. -/
structure Reading where
  labelNode : List Int
  labelEdge : List Int
  labelDist : List Int
  rest : List (List Char)

/-- `Integer.parseInt(reader.readLine())`, which throws on the `null` at the end
of the file. -/
def readInt : List (List Char) → Run (Int × List (List Char))
  | [] => throw .numberFormat
  | line :: rest => do return (← parseInt line, rest)

def readLabel (s : Reading) (i : Int) : Run Reading := do
  let (node, rest) ← readInt s.rest
  let labelNode ← wr s.labelNode i node
  let (edge, rest) ← readInt rest
  let labelEdge ← wr s.labelEdge i edge
  let (dist, rest) ← readInt rest
  let labelDist ← wr s.labelDist i dist
  return { labelNode, labelEdge, labelDist, rest }

/-- `initLabelInfo()`, with the static fields of `Labels`. -/
def initLabelInfo (N : HubLNodes) (L : Labels) : Run HubLNodes := do
  let nodeCount := L.labelNodes.length
  -- first write to file. This is necessary as otherwise too much RAM is used
  let w ← (indices 0 nodeCount).foldlM (writeNode L)
    { labelOffset := List.replicate (nodeCount + 1) 0, nextOffset := 0, text := [] }
  let labelOffset ← wr w.labelOffset nodeCount w.nextOffset
  -- read back from temp file into new format
  let r ← (indices 0 w.nextOffset).foldlM readLabel
    { labelNode := List.replicate (w.nextOffset + 1).toNat 0
      labelEdge := List.replicate (w.nextOffset + 1).toNat 0
      labelDist := List.replicate (w.nextOffset + 1).toNat 0
      rest := lines w.text }
  -- one additional element in the arrays, as the routing algorithm may overshoot
  let labelNode ← wr r.labelNode w.nextOffset (-1)
  let labelEdge ← wr r.labelEdge w.nextOffset (-1)
  let labelDist ← wr r.labelDist w.nextOffset (-1)
  return { N with labelOffset, labelNode, labelEdge, labelDist }

/-- `serializeHubLData()` of `LabelCreator`, up to the file into which the data
is stored. -/
def serializeHubLData (noLabelLvls : Int) (levels : List Int) (E : Edges) (D : DynamicGrid)
    (L : Labels) : Run (HubLEdges × HubLNodes) := do
  let H ← HubLEdges.initializeFrom E
  let N := initNodeData (initHlLvl empty noLabelLvls) levels
  let N ← initEdgeInfo N E D
  let N ← initLabelInfo N L
  return (H, N)

/-! ## The edges that stay -/

section edges

variable {n : Nat} {alive : Int → Prop} {E : Edges} {D : DynamicGrid} {N : HubLNodes}

/-- The edges that are stored for the node `u`. -/
def storedEdges (E : Edges) (D : DynamicGrid) (levels : List Int) (hlLevel u : Int) : List Int :=
  if hlLevel ≤ HLDijkstra.level levels u then []
  else (D.all u).filter fun e =>
    HLDijkstra.level levels u < HLDijkstra.level levels (E.destOf e)

/-- The rows of the array `edges`. -/
def edgeRows (E : Edges) (D : DynamicGrid) (N : HubLNodes) (n : Nat) : List (List Int) :=
  (List.range n).map fun v : Nat => storedEdges E D N.levels N.hlLevel (v : Int)

/-- The state of `Edges`, `DynamicGrid` and the levels. -/
structure GridState (n : Nat) (alive : Int → Prop) (E : Edges) (D : DynamicGrid)
    (levels : List Int) : Prop where
  edges : E.Valid
  levelsLength : levels.length = n
  all : DynamicGrid.Lists n alive D.allEdgeIds D.allEdgeCount D.all
  edge : ∀ u, ∀ e ∈ D.all u, E.IsId e ∧ 0 ≤ E.destOf e ∧ E.destOf e < n

theorem GridState.rd_level (h : GridState n alive E D N.levels) {u : Int} (h0 : 0 ≤ u)
    (h1 : u < n) : rd N.levels u = .ok (HLDijkstra.level N.levels u) := by
  obtain ⟨x, hx⟩ := exists_rd (a := N.levels) h0 (by rw [h.levelsLength]; exact h1)
  rw [HLDijkstra.level, hx]
  rfl

theorem GridState.getDest (h : GridState n alive E D N.levels) {u e : Int} (he : e ∈ D.all u) :
    E.getDest e = .ok (E.destOf e) := (h.edges.isEdge (h.edge u e he).1).dest

/-- Deleting the edge in the middle of a row. -/
theorem arraycopy_delete (kept todo rest : List Int) (e : Int) :
    ∃ rest', arraycopy (kept ++ e :: todo ++ rest) ((kept.length : Int) + 1)
        (kept ++ e :: todo ++ rest) kept.length todo.length =
      .ok (kept ++ todo ++ rest') := by
  obtain ⟨y, hy⟩ := shiftRemove_eq (kept ++ e :: todo) rest (n := kept.length) (by simp)
  refine ⟨y :: rest, ?_⟩
  have hlen : ((kept ++ e :: todo).length : Int) - 1 - kept.length = todo.length := by
    simp only [List.length_append, List.length_cons]
    omega
  have herase : (kept ++ e :: todo).eraseIdx kept.length = kept ++ todo := by
    rw [List.eraseIdx_append_of_length_le (le_refl _), Nat.sub_self, List.eraseIdx_cons_zero]
  rw [shiftRemove, hlen, herase] at hy
  exact hy

/-- The loop over the edges of one node: the edges that were looked at and lead
to a higher level are in front of those that are left. -/
structure Trimmed (D : DynamicGrid) (higher : Int → Bool) (u total : Int) (kept todo : List Int)
    (t : Trimming) : Prop where
  array : ∃ rest, t.edgeArray = kept ++ todo ++ rest
  count : t.edgeCount = (kept.length + todo.length : Nat)
  index : t.j = kept.length
  total_ : t.totalEdgeLen = total + kept.length
  kept_ : kept ++ todo.filter higher = (D.all u).filter higher
  sub : ∀ e ∈ todo, e ∈ D.all u

theorem trimStep_spec (h : GridState n alive E D N.levels) {higher : Int → Bool} {u total : Int}
    (hhigher : higher = fun e =>
      decide (HLDijkstra.level N.levels u < HLDijkstra.level N.levels (E.destOf e)))
    {kept todo : List Int} {e : Int} {t : Trimming}
    (ht : Trimmed D higher u total kept (e :: todo) t) :
    ∃ t' kept', trimStep E N.levels (HLDijkstra.level N.levels u) t = .ok t' ∧
      Trimmed D higher u total kept' todo t' := by
  obtain ⟨rest, harr⟩ := ht.array
  have he : e ∈ D.all u := ht.sub e List.mem_cons_self
  have hcur : rd t.edgeArray t.j = .ok e := by
    rw [ht.index, harr]
    apply rd_of_getElem?
    simp
  have hdest := h.edge u e he
  have hsub : ∀ x ∈ todo, x ∈ D.all u := fun x hx => ht.sub x (List.mem_cons_of_mem e hx)
  have hcount := ht.count
  have hindex := ht.index
  have hkept := ht.kept_
  unfold trimStep
  rw [hcur, ok_bind, h.getDest he, ok_bind, h.rd_level hdest.2.1 hdest.2.2, ok_bind]
  split_ifs with hle
  · have hno : higher e = false := by
      rw [hhigher]
      simp only [decide_eq_false_iff_not]
      omega
    obtain ⟨rest', hcopy⟩ := arraycopy_delete kept todo rest e
    have hlen : t.edgeCount - 1 - kept.length = todo.length := by
      rw [hcount, List.length_cons]
      omega
    refine ⟨{ t with
        edgeArray := kept ++ todo ++ rest'
        edgeCount := t.edgeCount - 1 }, kept, ?_, ⟨rest', rfl⟩, ?_, hindex, ht.total_, ?_, hsub⟩
    · simp only [hindex, harr, hlen, hcopy, ok_bind, pure_eq_ok]
    · show t.edgeCount - 1 = _
      rw [hcount, List.length_cons]
      omega
    · rw [List.filter_cons_of_neg (by simp [hno])] at hkept
      exact hkept
  · have hyes : higher e = true := by
      rw [hhigher]
      simp only [decide_eq_true_eq]
      omega
    refine ⟨{ t with totalEdgeLen := t.totalEdgeLen + 1, j := t.j + 1 }, kept ++ [e], rfl,
      ⟨rest, by simp [harr]⟩, ?_, ?_, ?_, ?_, hsub⟩
    · show t.edgeCount = _
      rw [hcount]
      simp only [List.length_append, List.length_cons, List.length_nil]
      omega
    · show t.j + 1 = _
      rw [hindex]
      simp
    · show t.totalEdgeLen + 1 = _
      rw [ht.total_]
      simp only [List.length_append, List.length_cons, List.length_nil]
      omega
    · rw [List.filter_cons_of_pos hyes] at hkept
      rw [List.append_assoc]
      exact hkept

/-- The whole loop. -/
theorem trim_spec (h : GridState n alive E D N.levels) (u total : Int) {higher : Int → Bool}
    (hhigher : higher = fun e =>
      decide (HLDijkstra.level N.levels u < HLDijkstra.level N.levels (E.destOf e)))
    {t : Trimming} (ht : Trimmed D higher u total [] (D.all u) t) :
    ∃ t', whileLoop (fun t => return decide (t.j < t.edgeCount))
        (trimStep E N.levels (HLDijkstra.level N.levels u)) (D.all u).length t = .ok t' ∧
      Trimmed D higher u total ((D.all u).filter higher) [] t' := by
  obtain ⟨t', k, hrun, ⟨kept, todo, ht', rfl⟩, hend⟩ := whileLoop_bounded
    (c := fun t : Trimming => return decide (t.j < t.edgeCount))
    (f := trimStep E N.levels (HLDijkstra.level N.levels u))
    (I := fun k t => ∃ kept todo, Trimmed D higher u total kept todo t ∧ todo.length = k)
    (fun k t _ => ⟨_, rfl⟩) (by
      rintro k t ⟨kept, todo, ht, rfl⟩ hlt
      have hlt : t.j < t.edgeCount := by simpa using hlt
      cases todo with
      | nil =>
        have hcount := ht.count
        have hindex := ht.index
        simp only [List.length_nil] at hcount
        omega
      | cons e todo =>
        obtain ⟨t', kept', hstep, ht'⟩ := trimStep_spec h hhigher ht
        exact ⟨t', todo.length, hstep, ⟨kept', todo, ht', rfl⟩, by simp⟩)
    (D.all u).length (D.all u).length t ⟨[], D.all u, ht, rfl⟩ (le_refl _)
  have hge : ¬ t'.j < t'.edgeCount := by simpa using hend
  have hnil : todo = [] := by
    have hcount := ht'.count
    have hindex := ht'.index
    exact List.eq_nil_of_length_eq_zero (by omega)
  subst hnil
  have hkept := ht'.kept_
  rw [List.filter_nil, List.append_nil] at hkept
  exact ⟨t', hrun, hkept ▸ ht'⟩

theorem edgeRows_get {k : Nat} (hk : k < n) :
    (edgeRows E D N n)[k]? = some (storedEdges E D N.levels N.hlLevel (k : Int)) := by
  rw [edgeRows, List.getElem?_map, List.getElem?_range hk]
  rfl

theorem edgeRows_length : (edgeRows E D N n).length = n := by
  simp [edgeRows]

/-- The first loop, after the first `k` nodes. -/
structure TrimmedTo (n : Nat) (E : Edges) (D : DynamicGrid) (N : HubLNodes) (k : Nat)
    (s : EdgeInfo) : Prop where
  gridLength : s.currentGrid.length = n
  countsLength : s.edgeCounts.length = n
  done : ∀ i : Nat, i < k → ∃ rest,
    rd s.currentGrid i = .ok (storedEdges E D N.levels N.hlLevel (i : Int) ++ rest) ∧
    rd s.edgeCounts i = .ok ((storedEdges E D N.levels N.hlLevel (i : Int)).length : Int)
  left : ∀ i : Nat, k ≤ i → rd s.currentGrid i = rd D.allEdgeIds i ∧
    rd s.edgeCounts i = rd D.allEdgeCount i
  total : s.totalEdgeLen = rowStart (edgeRows E D N n) k

/-- Writing the result of the node `k`. -/
theorem TrimmedTo.write {k : Nat} {s : EdgeInfo} (hs : TrimmedTo n E D N k s) (hk : k < n)
    (row rest : List Int) (total : Int)
    (hrow : row = storedEdges E D N.levels N.hlLevel (k : Int))
    (htotal : total = s.totalEdgeLen + row.length) :
    ∃ grid counts, wr s.currentGrid k (row ++ rest) = .ok grid ∧
      wr s.edgeCounts k (row.length : Int) = .ok counts ∧
      TrimmedTo n E D N (k + 1) ⟨grid, counts, total⟩ := by
  have hgl := hs.gridLength
  have hcl := hs.countsLength
  have hg := wr_of_bounds (a := s.currentGrid) (i := k) (row ++ rest) (by omega) (by omega)
  have hc := wr_of_bounds (a := s.edgeCounts) (i := k) (row.length : Int) (by omega) (by omega)
  refine ⟨_, _, hg, hc, ?_⟩
  constructor
  · rw [length_of_wr hg, hgl]
  · rw [length_of_wr hc, hcl]
  · intro i hi
    rw [rd_of_wr hg, rd_of_wr hc]
    by_cases hik : (i : Int) = k
    · rw [if_pos hik, if_pos hik, hik, ← hrow]
      exact ⟨rest, rfl, rfl⟩
    · rw [if_neg hik, if_neg hik]
      exact hs.done i (by omega)
  · intro i hi
    rw [rd_of_wr hg, rd_of_wr hc, if_neg (by omega), if_neg (by omega)]
    exact hs.left i (by omega)
  · rw [rowStart_succ (edgeRows_get hk), ← hrow, htotal, hs.total]
    push_cast
    rfl

theorem trimNode_spec (h : GridState n alive E D N.levels) {k : Nat} {s : EdgeInfo}
    (hs : TrimmedTo n E D N k s) (hk : k < n) :
    ∃ s', trimNode E N s k = .ok s' ∧ TrimmedTo n E D N (k + 1) s' := by
  unfold trimNode
  rw [h.rd_level (by omega) (by omega), ok_bind]
  split_ifs with hle
  · obtain ⟨grid, counts, hg, hc, hs'⟩ := hs.write hk [] [] s.totalEdgeLen
      (by rw [storedEdges, if_pos hle]) (by simp)
    rw [List.append_nil] at hg
    rw [List.length_nil, Nat.cast_zero] at hc
    exact ⟨_, by rw [hg, ok_bind, hc, ok_bind]; rfl, hs'⟩
  · obtain ⟨rest, hrow, hcount, _⟩ := h.all.node k (by omega) (by omega)
    obtain ⟨hleftRow, hleftCount⟩ := hs.left k (le_refl k)
    obtain ⟨t, hrun, ht⟩ := trim_spec h k s.totalEdgeLen rfl
      (t := { edgeArray := D.all k ++ rest, edgeCount := ((D.all k).length : Int), j := 0,
              totalEdgeLen := s.totalEdgeLen })
      ⟨⟨rest, by simp⟩, by simp, rfl, by simp, by simp, fun e he => he⟩
    obtain ⟨rest', harr⟩ := ht.array
    obtain ⟨grid, counts, hg, hc, hs'⟩ := hs.write hk _ rest' t.totalEdgeLen
      (by rw [storedEdges, if_neg hle]) ht.total_
    have hcount' := ht.count
    rw [List.append_nil] at harr
    rw [List.length_nil, Nat.add_zero] at hcount'
    refine ⟨_, ?_, hs'⟩
    rw [hleftCount, hcount, ok_bind, hleftRow, hrow, ok_bind, Int.toNat_natCast, hrun, ok_bind,
      harr, hcount', hg, ok_bind, hc, ok_bind]
    rfl

theorem trimNodes_spec (h : GridState n alive E D N.levels) :
    ∃ s, (indices 0 n).foldlM (trimNode E N)
        { currentGrid := D.allEdgeIds, edgeCounts := D.allEdgeCount, totalEdgeLen := 0 } = .ok s ∧
      TrimmedTo n E D N n s := by
  apply foldlM_indices (P := TrimmedTo n E D N) (Nat.zero_le n)
  · refine ⟨h.all.idsLength, h.all.countsLength, ?_, fun i _ => ⟨rfl, rfl⟩, ?_⟩
    · intro i hi
      omega
    · rw [rowStart_zero]
      rfl
  · intro j s _ hj hs
    exact trimNode_spec h hs hj

/-- The second loop, after the first `k` nodes. -/
structure FilledTo (rows : List (List Int)) (k : Nat) (s : Filling) : Prop where
  length : s.edgesOffset.length = rows.length + 1
  offset : ∀ v : Nat, v < k → rd s.edgesOffset v = .ok (rowStart rows v : Int)
  next : s.nextOffset = rowStart rows k
  edges : s.edges = (rows.take k).flatten ++
    List.replicate (rows.flatten.length - rowStart rows k) 0

theorem fillStep_spec {info : EdgeInfo} (hinfo : TrimmedTo n E D N n info) {k : Nat} {s : Filling}
    (hs : FilledTo (edgeRows E D N n) k s) (hk : k < n) :
    ∃ s', fillStep info s k = .ok s' ∧ FilledTo (edgeRows E D N n) (k + 1) s' := by
  obtain ⟨rest, hrow, hcount⟩ := hinfo.done k hk
  have hget := edgeRows_get (E := E) (D := D) (N := N) hk
  have hlen := hs.length
  rw [edgeRows_length] at hlen
  have hoff := wr_of_bounds (a := s.edgesOffset) (i := k) s.nextOffset (by omega) (by omega)
  have hmono : rowStart (edgeRows E D N n) (k + 1) ≤ (edgeRows E D N n).flatten.length := by
    rw [← rowStart_length]
    exact rowStart_mono _ (by rw [edgeRows_length]; omega)
  have hsucc := rowStart_succ hget
  have htake : ((edgeRows E D N n).take (k + 1)).flatten = ((edgeRows E D N n).take k).flatten ++
      storedEdges E D N.levels N.hlLevel (k : Int) := by
    rw [List.take_add_one, hget]
    simp
  have hoffset : ∀ v : Nat, v < k + 1 →
      rd (s.edgesOffset.set (k : Int).toNat s.nextOffset) v =
        .ok (rowStart (edgeRows E D N n) v : Int) := by
    intro v hv
    rw [rd_of_wr hoff]
    by_cases hvk : (v : Int) = k
    · obtain rfl : v = k := by omega
      rw [if_pos rfl, hs.next]
    · rw [if_neg hvk]
      exact hs.offset v (by omega)
  unfold fillStep
  rw [hcount, ok_bind, hoff, ok_bind]
  split_ifs with hne
  · have hcopy := arraycopy_fill 0 ((edgeRows E D N n).take k).flatten
      (storedEdges E D N.levels N.hlLevel (k : Int) ++ rest)
      (n := (edgeRows E D N n).flatten.length - rowStart (edgeRows E D N n) k)
      (k := (storedEdges E D N.levels N.hlLevel (k : Int)).length) (by omega) (by simp)
    rw [List.take_left' rfl, ← hs.edges] at hcopy
    have hnext : s.nextOffset = (((edgeRows E D N n).take k).flatten.length : Int) := hs.next
    rw [← hnext] at hcopy
    refine ⟨_, by rw [hrow, ok_bind, hcopy]; rfl, ?_, hoffset, ?_, ?_⟩
    · rw [List.length_set, hs.length]
    · show s.nextOffset + _ = _
      rw [hsucc, hs.next]
      push_cast
      rfl
    · show _ ++ _ ++ List.replicate _ 0 = _
      rw [htake, hsucc, Nat.sub_sub]
  · have hnil : storedEdges E D N.levels N.hlLevel (k : Int) = [] := by
      apply List.eq_nil_of_length_eq_zero
      omega
    have hsucc : rowStart (edgeRows E D N n) (k + 1) = rowStart (edgeRows E D N n) k := by
      rw [hsucc, hnil, List.length_nil, Nat.add_zero]
    rw [hnil, List.append_nil] at htake
    refine ⟨_, rfl, ?_, hoffset, ?_, ?_⟩
    · rw [List.length_set, hs.length]
    · show s.nextOffset = _
      rw [hs.next, hsucc]
    · show s.edges = _
      rw [hs.edges, htake, hsucc]

/-- The edges of all nodes are stored, without a gap. -/
theorem initEdgeInfo_spec (h : GridState n alive E D N.levels) :
    ∃ offset edges, initEdgeInfo N E D = .ok { N with edgesOffset := offset, edges := edges } ∧
      edges = (edgeRows E D N n).flatten ∧ IsRows offset edges (edgeRows E D N n) := by
  obtain ⟨info, hrun, hinfo⟩ := trimNodes_spec (N := N) h
  obtain ⟨s, hfill, hs⟩ := foldlM_indices (f := fillStep info)
    (P := FilledTo (edgeRows E D N n)) (Nat.zero_le n)
    (b := { edgesOffset := List.replicate (n + 1) 0
            edges := List.replicate info.totalEdgeLen.toNat 0
            nextOffset := 0 }) (by
      refine ⟨by rw [List.length_replicate, edgeRows_length], ?_, ?_, ?_⟩
      · intro v hv
        omega
      · rw [rowStart_zero]
        rfl
      · rw [hinfo.total, rowStart_zero, Int.toNat_natCast]
        have hlen := rowStart_length (edgeRows E D N n)
        rw [edgeRows_length] at hlen
        rw [hlen]
        simp) (by
      intro j s _ hj hs
      exact fillStep_spec hinfo hs hj)
  have hlen := hs.length
  rw [edgeRows_length] at hlen
  have hoff := wr_of_bounds (a := s.edgesOffset) (i := n) s.nextOffset (by omega) (by omega)
  have hcounts : D.allEdgeCount.length = n := h.all.countsLength
  have hfull := rowStart_length (edgeRows E D N n)
  rw [edgeRows_length] at hfull
  have hedges : s.edges = (edgeRows E D N n).flatten := by
    have hs' := hs.edges
    rw [hfull, Nat.sub_self, List.replicate_zero, List.append_nil, List.take_of_length_le
      (le_of_eq edgeRows_length)] at hs'
    exact hs'
  refine ⟨s.edgesOffset.set (n : Int).toNat s.nextOffset, s.edges, ?_, hedges, ?_, ?_,
    ⟨[], by rw [hedges, List.append_nil]⟩⟩
  · rw [Nat.cast_zero] at hfill
    simp only [initEdgeInfo, hcounts, hrun, hfill, hoff, ok_bind, pure_eq_ok]
  · rw [List.length_set, hs.length]
  · intro v hv
    rw [edgeRows_length] at hv
    rw [rd_of_wr hoff]
    by_cases hvn : (v : Int) = n
    · obtain rfl : v = n := by omega
      rw [if_pos rfl, hs.next]
    · rw [if_neg hvn]
      exact hs.offset v (by omega)

end edges

/-! ## The labels, over the text file -/

section labels

variable {n : Nat} {L : Labels} {N : HubLNodes}

/-- The array of a node, and an empty one for `null`. -/
def rowOf (a : List (Option (List Int))) (i : Int) : List Int :=
  match rd a i with
  | .ok (some row) => row
  | _ => []

/-- The labels of a node: hub, edge and distance of each one. -/
def entries (L : Labels) (i : Int) : List (Int × Int × Int) :=
  (rowOf L.labelNodes i).zip ((rowOf L.labelEdges i).zip (rowOf L.labelDist i))

/-- The labels of all nodes. -/
def labelRows (L : Labels) (n : Nat) : List (List (Int × Int × Int)) :=
  (List.range n).map fun v : Nat => entries L (v : Int)

/-- The three arrays of a node are `null` or equally long, and hold ints. -/
structure LabelState (n : Nat) (L : Labels) : Prop where
  sized : L.Sized n
  row : ∀ i : Nat, i < n → (rd L.labelNodes i = .ok none ∧ rd L.labelEdges i = .ok none ∧
      rd L.labelDist i = .ok none) ∨
    ∃ hs es ds, rd L.labelNodes i = .ok (some hs) ∧ rd L.labelEdges i = .ok (some es) ∧
      rd L.labelDist i = .ok (some ds) ∧ es.length = hs.length ∧ ds.length = hs.length
  int : ∀ i : Nat, i < n → ∀ x, x ∈ rowOf L.labelNodes i ∨ x ∈ rowOf L.labelEdges i ∨
    x ∈ rowOf L.labelDist i → IsInt x

/-- The lines of one label in the file. -/
def fields (e : Int × Int × Int) : List (List Char) :=
  [valueOf e.1, valueOf e.2.1, valueOf e.2.2]

/-- The text of some labels. -/
def written (es : List (Int × Int × Int)) : List Char :=
  (es.flatMap fields).flatMap fun line => line ++ ['\n']

theorem written_append (es es' : List (Int × Int × Int)) :
    written (es ++ es') = written es ++ written es' := by
  simp [written]

theorem lines_written (es : List (Int × Int × Int)) : lines (written es) = es.flatMap fields := by
  apply lines_unlines
  intro line hline
  obtain ⟨e, _, he⟩ := List.mem_flatMap.mp hline
  simp only [fields, List.mem_cons, List.not_mem_nil, or_false] at he
  rcases he with rfl | rfl | rfl
  · exact isLine_valueOf _
  · exact isLine_valueOf _
  · exact isLine_valueOf _

theorem labelRows_length : (labelRows L n).length = n := by
  simp [labelRows]

theorem labelRows_get {k : Nat} (hk : k < n) :
    (labelRows L n)[k]? = some (entries L (k : Int)) := by
  rw [labelRows, List.getElem?_map, List.getElem?_range hk]
  rfl

/-- The loop that writes, after the first `k` nodes. -/
structure WrittenTo (L : Labels) (n k : Nat) (s : Writing) : Prop where
  length : s.labelOffset.length = n + 1
  offset : ∀ v : Nat, v < k → rd s.labelOffset v = .ok (rowStart (labelRows L n) v : Int)
  next : s.nextOffset = rowStart (labelRows L n) k
  text : s.text = written ((labelRows L n).take k).flatten

/-- The lines of one node. -/
theorem writeRow_spec {hs es ds : List Int} (hes : es.length = hs.length)
    (hds : ds.length = hs.length) (text : List Char) :
    (indices 0 hs.length).foldlM (writeLabel hs (some es) (some ds)) text =
      .ok (text ++ written (hs.zip (es.zip ds))) := by
  obtain ⟨text', hrun, htext⟩ := foldlM_indices (f := writeLabel hs (some es) (some ds))
    (P := fun j text' => text' = text ++ written ((hs.zip (es.zip ds)).take j))
    (Nat.zero_le hs.length) (b := text) (by simp [written]) (by
      intro j text' _ hj htext'
      have hh : rd hs (j : Int) = .ok hs[j] := rd_of_getElem? (List.getElem?_eq_getElem hj)
      have he : rd es (j : Int) = .ok (es[j]) :=
        rd_of_getElem? (List.getElem?_eq_getElem (by omega))
      have hd : rd ds (j : Int) = .ok (ds[j]) :=
        rd_of_getElem? (List.getElem?_eq_getElem (by omega))
      have hget : (hs.zip (es.zip ds))[j]? = some (hs[j], es[j], ds[j]) := by
        rw [List.getElem?_eq_getElem (by simp; omega)]
        simp
      refine ⟨_, by
        simp only [writeLabel, hh, he, hd, Labels.deref, pure_eq_ok, ok_bind]
        rfl, ?_⟩
      rw [List.take_add_one, hget, written_append, htext']
      simp [writeLine, written, fields])
  rw [Nat.cast_zero] at hrun
  rw [hrun, htext, List.take_of_length_le (by simp)]

theorem writeNode_spec (h : LabelState n L) {k : Nat} {s : Writing} (hs : WrittenTo L n k s)
    (hk : k < n) : ∃ s', writeNode L s k = .ok s' ∧ WrittenTo L n (k + 1) s' := by
  have hlen := hs.length
  have hoff := wr_of_bounds (a := s.labelOffset) (i := k) s.nextOffset (by omega) (by omega)
  have hget := labelRows_get (L := L) hk
  have hsucc := rowStart_succ hget
  have htake : ((labelRows L n).take (k + 1)).flatten =
      ((labelRows L n).take k).flatten ++ entries L (k : Int) := by
    rw [List.take_add_one, hget]
    simp
  have hoffset : ∀ v : Nat, v < k + 1 →
      rd (s.labelOffset.set (k : Int).toNat s.nextOffset) v =
        .ok (rowStart (labelRows L n) v : Int) := by
    intro v hv
    rw [rd_of_wr hoff]
    by_cases hvk : (v : Int) = k
    · obtain rfl : v = k := by omega
      rw [if_pos rfl, hs.next]
    · rw [if_neg hvk]
      exact hs.offset v (by omega)
  unfold writeNode
  rw [hoff, ok_bind]
  rcases h.row k hk with ⟨hnodes, _, _⟩ | ⟨hubs, es, ds, hnodes, hedges, hdists, hes, hds⟩
  · have hnil : entries L (k : Int) = [] := by
      rw [entries, rowOf, hnodes]
      rfl
    refine ⟨_, by rw [hnodes]; rfl, ?_, hoffset, ?_, ?_⟩
    · rw [List.length_set, hlen]
    · show s.nextOffset = _
      rw [hs.next, hsucc, hnil, List.length_nil, Nat.add_zero]
    · show s.text = _
      rw [hs.text, htake, hnil, List.append_nil]
  · have hentries : entries L (k : Int) = hubs.zip (es.zip ds) := by
      simp only [entries, rowOf, hnodes, hedges, hdists]
    have hcount : (entries L (k : Int)).length = hubs.length := by
      rw [hentries, List.length_zip, List.length_zip]
      omega
    refine ⟨_, by
      simp only [hnodes, hedges, hdists, ok_bind, writeRow_spec hes hds, pure_eq_ok]
      rfl, ?_, hoffset, ?_, ?_⟩
    · rw [List.length_set, hlen]
    · show s.nextOffset + (hubs.length : Int) = _
      rw [hs.next, hsucc, hcount]
      push_cast
      rfl
    · show s.text ++ _ = _
      rw [hs.text, htake, written_append, hentries]

/-- The loop that reads, after the first `k` labels of `es`. -/
structure ReadTo (es : List (Int × Int × Int)) (k : Nat) (s : Reading) : Prop where
  node : s.labelNode = (es.take k).map (fun e => e.1) ++ List.replicate (es.length + 1 - k) 0
  edge : s.labelEdge = (es.take k).map (fun e => e.2.1) ++ List.replicate (es.length + 1 - k) 0
  dist : s.labelDist = (es.take k).map (fun e => e.2.2) ++ List.replicate (es.length + 1 - k) 0
  rest : s.rest = (es.drop k).flatMap fields

/-- The write of one value of the label `k`. -/
theorem wr_column {es : List (Int × Int × Int)} {k : Nat} (hk : k < es.length)
    (f : Int × Int × Int → Int) :
    wr ((es.take k).map f ++ List.replicate (es.length + 1 - k) 0) k (f es[k]) =
      .ok ((es.take (k + 1)).map f ++ List.replicate (es.length + 1 - (k + 1)) 0) := by
  have hlen : ((es.take k).map f).length = k := by
    rw [List.length_map, List.length_take]
    omega
  have hfree : es.length + 1 - k = es.length + 1 - (k + 1) + 1 := by omega
  have hwr := wr_fill 0 (f es[k]) ((es.take k).map f) (es.length + 1 - (k + 1))
  rw [hlen] at hwr
  have htake : (es.take (k + 1)).map f = (es.take k).map f ++ [f es[k]] := by
    rw [List.take_add_one, List.getElem?_eq_getElem hk, List.map_append]
    rfl
  rw [hfree, hwr, htake]

theorem readLabel_spec {es : List (Int × Int × Int)}
    (hint : ∀ e ∈ es, IsInt e.1 ∧ IsInt e.2.1 ∧ IsInt e.2.2) {k : Nat} {s : Reading}
    (hs : ReadTo es k s) (hk : k < es.length) :
    ∃ s', readLabel s k = .ok s' ∧ ReadTo es (k + 1) s' := by
  obtain ⟨h1, h2, h3⟩ := hint es[k] (List.getElem_mem hk)
  have hrest : s.rest = valueOf es[k].1 :: valueOf es[k].2.1 :: valueOf es[k].2.2 ::
      (es.drop (k + 1)).flatMap fields := by
    rw [hs.rest, List.drop_eq_getElem_cons hk]
    rfl
  refine ⟨_, by
    simp only [readLabel, hrest, readInt, parseInt_valueOf h1, parseInt_valueOf h2,
      parseInt_valueOf h3, ok_bind, pure_eq_ok, hs.node, hs.edge, hs.dist,
      wr_column hk fun e => e.1, wr_column hk fun e => e.2.1, wr_column hk fun e => e.2.2]
    rfl, rfl, rfl, rfl, rfl⟩

/-- The write of the last element of a column. -/
theorem wr_sentinel {es : List (Int × Int × Int)} (f : Int × Int × Int → Int) :
    wr ((es.take es.length).map f ++ List.replicate (es.length + 1 - es.length) 0)
        es.length (-1) = .ok (es.map f ++ [-1]) := by
  have hwr := wr_fill 0 (-1) (es.map f) 0
  rw [List.length_map] at hwr
  rw [List.take_length, Nat.add_sub_cancel_left, hwr]
  simp

theorem entries_int (h : LabelState n L) :
    ∀ e ∈ (labelRows L n).flatten, IsInt e.1 ∧ IsInt e.2.1 ∧ IsInt e.2.2 := by
  intro e he
  obtain ⟨row, hrow, he⟩ := List.mem_flatten.mp he
  obtain ⟨i, hi, rfl⟩ := List.mem_map.mp hrow
  rw [List.mem_range] at hi
  obtain ⟨hub, edge, dist⟩ := e
  have hzip := List.of_mem_zip he
  have hzip' := List.of_mem_zip hzip.2
  exact ⟨h.int i hi hub (Or.inl hzip.1), h.int i hi edge (Or.inr (Or.inl hzip'.1)),
    h.int i hi dist (Or.inr (Or.inr hzip'.2))⟩

/-- The labels of all nodes are stored, without a gap, and one element follows
them. -/
theorem initLabelInfo_spec (h : LabelState n L) :
    ∃ offset, initLabelInfo N L = .ok { N with
        labelOffset := offset
        labelNode := (labelRows L n).flatten.map (fun e => e.1) ++ [-1]
        labelEdge := (labelRows L n).flatten.map (fun e => e.2.1) ++ [-1]
        labelDist := (labelRows L n).flatten.map (fun e => e.2.2) ++ [-1] } ∧
      offset.length = n + 1 ∧
      ∀ v : Nat, v ≤ n → rd offset v = .ok (rowStart (labelRows L n) v : Int) := by
  obtain ⟨w, hwrite, hw⟩ := foldlM_indices (f := writeNode L) (P := WrittenTo L n)
    (Nat.zero_le n)
    (b := { labelOffset := List.replicate (n + 1) 0, nextOffset := 0, text := [] }) (by
      refine ⟨List.length_replicate, ?_, ?_, ?_⟩
      · intro v hv
        omega
      · rw [rowStart_zero]
        rfl
      · rfl) (by
      intro j s _ hj hs
      exact writeNode_spec h hs hj)
  have hfull := rowStart_length (labelRows L n)
  rw [labelRows_length] at hfull
  have hnext : w.nextOffset = (labelRows L n).flatten.length := by rw [hw.next, hfull]
  have htext : w.text = written (labelRows L n).flatten := by
    rw [hw.text, List.take_of_length_le (le_of_eq labelRows_length)]
  obtain ⟨r, hread, hr⟩ := foldlM_indices (f := readLabel)
    (P := ReadTo (labelRows L n).flatten) (Nat.zero_le (labelRows L n).flatten.length)
    (b := { labelNode := List.replicate ((labelRows L n).flatten.length + 1) 0
            labelEdge := List.replicate ((labelRows L n).flatten.length + 1) 0
            labelDist := List.replicate ((labelRows L n).flatten.length + 1) 0
            rest := lines (written (labelRows L n).flatten) })
    ⟨by simp, by simp, by simp, by rw [lines_written]; simp⟩ (by
      intro j s _ hj hs
      exact readLabel_spec (entries_int h) hs hj)
  have hlen := hw.length
  have hoff := wr_of_bounds (a := w.labelOffset) (i := n) w.nextOffset (by omega) (by omega)
  have hcount : ((labelRows L n).flatten.length : Int) + 1 =
      (((labelRows L n).flatten.length + 1 : Nat) : Int) := by push_cast; rfl
  refine ⟨w.labelOffset.set (n : Int).toNat w.nextOffset, ?_, ?_, ?_⟩
  · rw [Nat.cast_zero] at hwrite hread
    simp only [initLabelInfo, h.sized.nodes, hwrite, ok_bind, hoff]
    simp only [hnext, htext, hcount, Int.toNat_natCast, hread, ok_bind, hr.node, hr.edge, hr.dist,
      wr_sentinel, pure_eq_ok]
  · rw [List.length_set, hlen]
  · intro v hv
    rw [rd_of_wr hoff]
    by_cases hvn : (v : Int) = n
    · obtain rfl : v = n := by omega
      rw [if_pos rfl, hw.next]
    · rw [if_neg hvn]
      exact hw.offset v (by omega)

end labels

/-! ## The data of the router -/

section store

variable {n : Nat} {alive : Int → Prop} {hlLevel : Int} {levels : List Int} {E : Edges}
  {D : DynamicGrid} {L : Labels} {H : HubLEdges} {N : HubLNodes}

/-- `H` and `N` hold the edges, the levels and the labels. -/
structure Stores (n : Nat) (hlLevel : Int) (levels : List Int) (E : Edges) (D : DynamicGrid)
    (L : Labels) (H : HubLEdges) (N : HubLNodes) : Prop where
  hlLevel_eq : N.hlLevel = hlLevel
  levels_eq : N.levels = levels
  copies : HubLEdges.Copies E H
  edges_eq : N.edges = (edgeRows E D N n).flatten
  edgeRows : IsRows N.edgesOffset N.edges (edgeRows E D N n)
  labelOffset : N.labelOffset.length = n + 1
  offset : ∀ v : Nat, v ≤ n → N.getLabelOffset v = .ok (rowStart (labelRows L n) v : Int)
  node : N.labelNode = (labelRows L n).flatten.map (fun e => e.1) ++ [-1]
  edge : N.labelEdge = (labelRows L n).flatten.map (fun e => e.2.1) ++ [-1]
  dist : N.labelDist = (labelRows L n).flatten.map (fun e => e.2.2) ++ [-1]

theorem serializeHubLData_spec (hg : GridState n alive E D levels) (hl : LabelState n L)
    (hlLevel : Int) :
    ∃ H N, serializeHubLData hlLevel levels E D L = .ok (H, N) ∧
      Stores n hlLevel levels E D L H N := by
  obtain ⟨H, hH, hcopies⟩ := HubLEdges.initializeFrom_spec hg.edges
  obtain ⟨edgesOffset, edges, hE, hedges, hrows⟩ :=
    initEdgeInfo_spec (N := initNodeData (initHlLvl empty hlLevel) levels) hg
  obtain ⟨labelOffset, hL, hlen, hoff⟩ := initLabelInfo_spec
    (N := { initNodeData (initHlLvl empty hlLevel) levels with
      edgesOffset := edgesOffset, edges := edges }) hl
  refine ⟨H, _, by
    simp only [serializeHubLData, hH, ok_bind, hE]
    rw [hL]
    rfl, ?_⟩
  exact ⟨rfl, rfl, hcopies, hedges, hrows, hlen, hoff, rfl, rfl, rfl⟩

/-- One column of the labels as rows of an array. -/
theorem Stores.column (h : Stores n hlLevel levels E D L H N)
    (f : Int × Int × Int → Int) {data : List Int}
    (hdata : data = (labelRows L n).flatten.map f ++ [-1]) :
    IsRows N.labelOffset data ((labelRows L n).map (List.map f)) := by
  refine ⟨by rw [h.labelOffset, List.length_map, labelRows_length], ?_, [-1], ?_⟩
  · intro v hv
    rw [List.length_map, labelRows_length] at hv
    rw [rowStart_map]
    exact h.offset v hv
  · rw [hdata, List.map_flatten]

theorem column_get (f : Int × Int × Int → Int) {v : Nat} (hv : v < n) :
    ((labelRows L n).map (List.map f))[v]? = some ((entries L (v : Int)).map f) := by
  rw [List.getElem?_map, labelRows_get hv]
  rfl

/-- The three columns of the labels of a node are its arrays. -/
theorem LabelState.columns (hl : LabelState n L) {v : Nat} (hv : v < n) :
    (entries L (v : Int)).map (fun e => e.1) = rowOf L.labelNodes v ∧
      (entries L (v : Int)).map (fun e => e.2.1) = rowOf L.labelEdges v ∧
      (entries L (v : Int)).map (fun e => e.2.2) = rowOf L.labelDist v := by
  have hlen : (rowOf L.labelEdges v).length = (rowOf L.labelNodes v).length ∧
      (rowOf L.labelDist v).length = (rowOf L.labelNodes v).length := by
    rcases hl.row v hv with ⟨h1, h2, h3⟩ | ⟨hs, es, ds, h1, h2, h3, hes, hds⟩
    · simp [rowOf, h1, h2, h3]
    · simp only [rowOf, h1, h2, h3]
      exact ⟨hes, hds⟩
  have hsnd : (entries L (v : Int)).map (fun e => e.2) =
      (rowOf L.labelEdges v).zip (rowOf L.labelDist v) :=
    List.map_snd_zip (by rw [List.length_zip]; omega)
  refine ⟨List.map_fst_zip (by rw [List.length_zip]; omega), ?_, ?_⟩
  · have := congrArg (List.map Prod.fst) hsnd
    rw [List.map_map, List.map_fst_zip (by omega)] at this
    exact this
  · have := congrArg (List.map Prod.snd) hsnd
    rw [List.map_map, List.map_snd_zip (by omega)] at this
    exact this

/-- The store of the router refines the one of the calculation.  The edges of a
node without labels are its edges to strictly higher levels, in order; the
labels of a node are its three arrays, and behind the labels of all nodes there
is one more element. -/
theorem serializeHubLData_refines (hg : GridState n alive E D levels) (hl : LabelState n L)
    (hlLevel : Int) :
    ∃ H N, serializeHubLData hlLevel levels E D L = .ok (H, N) ∧
      (∀ e, 0 ≤ e → e < E.nextShortcutId →
        H.getDest e = E.getDest e ∧ H.getDist e = E.getDist e) ∧
      (∀ v : Nat, v < n → ∃ lo hi, N.getEdgeOffset v = .ok lo ∧
        N.getEdgeOffset (v + 1) = .ok hi ∧ lo ≤ hi ∧
        slice N.edges lo hi = .ok (if hlLevel ≤ HLDijkstra.level levels v then []
          else (D.all v).filter fun e =>
            HLDijkstra.level levels v < HLDijkstra.level levels (E.destOf e))) ∧
      (∀ v : Nat, v < n → ∃ lo hi, N.getLabelOffset v = .ok lo ∧
        N.getLabelOffset (v + 1) = .ok hi ∧ lo ≤ hi ∧
        slice N.labelNode lo hi = .ok (rowOf L.labelNodes v) ∧
        slice N.labelEdge lo hi = .ok (rowOf L.labelEdges v) ∧
        slice N.labelDist lo hi = .ok (rowOf L.labelDist v)) ∧
      N.getEdgeOffset 0 = .ok 0 ∧ N.getEdgeOffset n = .ok (N.edges.length : Int) ∧
      N.getLabelOffset 0 = .ok 0 ∧ ∃ m : Nat, N.getLabelOffset n = .ok (m : Int) ∧
        N.labelNode.length = m + 1 ∧ N.labelEdge.length = m + 1 ∧ N.labelDist.length = m + 1 ∧
        N.getLabelNode m = .ok (-1) ∧ N.getLabelEdge m = .ok (-1) ∧
        N.getLabelDist m = .ok (-1) := by
  obtain ⟨H, N, hrun, h⟩ := serializeHubLData_spec hg hl hlLevel
  have hfullE := rowStart_length (edgeRows E D N n)
  have hfullL := rowStart_length (labelRows L n)
  rw [edgeRows_length] at hfullE
  rw [labelRows_length] at hfullL
  refine ⟨H, N, hrun, ?_, ?_, ?_, ?_, ?_, ?_, (labelRows L n).flatten.length, ?_, ?_⟩
  · intro e h0 h1
    exact ⟨h.copies.dest e ⟨h0, h1⟩, h.copies.dist e ⟨h0, h1⟩⟩
  · intro v hv
    refine ⟨_, _, h.edgeRows.offset v (by rw [edgeRows_length]; omega),
      h.edgeRows.offset (v + 1) (by rw [edgeRows_length]; omega), ?_, ?_⟩
    · exact_mod_cast rowStart_mono _ (by omega)
    · rw [h.edgeRows.slice (edgeRows_get hv), storedEdges, h.hlLevel_eq, h.levels_eq]
  · intro v hv
    obtain ⟨h1, h2, h3⟩ := hl.columns hv
    have hnode := (h.column (fun e => e.1) h.node).slice (column_get _ hv)
    have hedge := (h.column (fun e => e.2.1) h.edge).slice (column_get _ hv)
    have hdist := (h.column (fun e => e.2.2) h.dist).slice (column_get _ hv)
    rw [rowStart_map, rowStart_map] at hnode hedge hdist
    refine ⟨_, _, h.offset v (by omega), h.offset (v + 1) (by omega), ?_, ?_, ?_, ?_⟩
    · exact_mod_cast rowStart_mono _ (by omega)
    · rw [hnode, h1]
    · rw [hedge, h2]
    · rw [hdist, h3]
  · have := h.edgeRows.offset 0 (by omega)
    rw [rowStart_zero] at this
    exact this
  · have := h.edgeRows.offset n (by rw [edgeRows_length])
    rw [hfullE, ← h.edges_eq] at this
    exact this
  · have := h.offset 0 (by omega)
    rw [rowStart_zero] at this
    exact this
  · rw [h.offset n (le_refl n), hfullL]
  · have hlast : ∀ f : Int × Int × Int → Int,
        rd ((labelRows L n).flatten.map f ++ [-1]) ((labelRows L n).flatten.length : Nat) =
          .ok (-1) := by
      intro f
      have := rd_append_length ((labelRows L n).flatten.map f) [] (-1)
      rw [List.length_map] at this
      exact this
    refine ⟨?_, ?_, ?_, ?_, ?_, ?_⟩
    · rw [h.node, List.length_append, List.length_map]
      rfl
    · rw [h.edge, List.length_append, List.length_map]
      rfl
    · rw [h.dist, List.length_append, List.length_map]
      rfl
    · rw [getLabelNode, h.node, hlast]
    · rw [getLabelEdge, h.edge, hlast]
    · rw [getLabelDist, h.dist, hlast]

/-- The path `0 — 1 — 2` whose middle node alone has labels. -/
def pathLabels : Labels where
  labelNodes := [none, some [1], none]
  labelEdges := [none, some [-1], none]
  labelDist := [none, some [0], none]

theorem pathGrid_state :
    GridState 3 (fun _ => True) CHDijkstra.pathEdges CHDijkstra.pathGrid [0, 1, 0] where
  edges := Edges.initialize_valid rfl rfl rfl
  levelsLength := rfl
  all := by
    refine ⟨rfl, rfl, ?_⟩
    intro u h0 h1
    have hu : u = 0 ∨ u = 1 ∨ u = 2 := by omega
    rcases hu with rfl | rfl | rfl
    · exact ⟨[0], rfl, rfl, fun _ => by decide⟩
    · exact ⟨[], rfl, rfl, fun _ => by decide⟩
    · exact ⟨[0], rfl, rfl, fun _ => by decide⟩
  edge := CHDijkstra.forall_pathGrid (by unfold Edges.IsId; decide)

theorem pathLabels_state : LabelState 3 pathLabels where
  sized := ⟨rfl, rfl, rfl⟩
  row := by
    intro i hi
    have hi : i = 0 ∨ i = 1 ∨ i = 2 := by omega
    rcases hi with rfl | rfl | rfl
    · exact Or.inl ⟨rfl, rfl, rfl⟩
    · exact Or.inr ⟨[1], [-1], [0], rfl, rfl, rfl, rfl, rfl⟩
    · exact Or.inl ⟨rfl, rfl, rfl⟩
  int := by
    intro i hi x hx
    have hall : ∀ i : Nat, i < 3 → ∀ x ∈ rowOf pathLabels.labelNodes (i : Int) ++
        rowOf pathLabels.labelEdges (i : Int) ++ rowOf pathLabels.labelDist (i : Int), IsInt x := by
      decide
    apply hall i hi x
    simp only [List.mem_append]
    tauto

theorem serializeHubLData_refines_path :
    ∃ H N, serializeHubLData 1 [0, 1, 0] CHDijkstra.pathEdges CHDijkstra.pathGrid pathLabels =
        .ok (H, N) ∧
      ∃ lo hi, N.getLabelOffset 1 = .ok lo ∧ N.getLabelOffset 2 = .ok hi ∧
        slice N.labelNode lo hi = .ok [1] := by
  obtain ⟨H, N, hrun, _, _, hlabels, _⟩ :=
    serializeHubLData_refines pathGrid_state pathLabels_state 1
  obtain ⟨lo, hi, h1, h2, _, hslice, _⟩ := hlabels 1 (by decide)
  exact ⟨H, N, hrun, lo, hi, h1, h2, hslice⟩

end store

end HubLNodes

end SeaRouter
