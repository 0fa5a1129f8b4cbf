import SeaRouter.HubLabelCreation.DynamicGrid
import SeaRouter.HubLabelCreation.Labels
import SeaRouter.Lib.Hierarchy

/-!
# `hublablecreation/HLDijkstra.java`

A thread of the label calculation.  The labels of a node come from its edges to
nodes that are not on a lower level and from the labels of these nodes; then
those that another label makes redundant are removed.  Of several edges to the
same node only the first one is used.
-/

namespace SeaRouter

open Java WGraph

/-- The fields of `HLDijkstra` that a calculation changes. -/
structure HLDijkstra where
  foundIds : OrderedIntSet
  distances : OrderedIntSet
  firstEdgeId : OrderedIntSet
deriving DecidableEq, Repr

namespace HLDijkstra

def new : HLDijkstra where
  foundIds := OrderedIntSet.new true 1000 2000
  distances := OrderedIntSet.new false 1000 2000
  firstEdgeId := OrderedIntSet.new false 1000 2000

/-- The table with one row, for the node itself. -/
def startTable (t : HLDijkstra) (nodeId : Int) : Run HLDijkstra := do
  let (_, foundIds) ← t.foundIds.clear.insertSorted nodeId
  let distances ← t.distances.clear.insertTail 0
  let firstEdgeId ← t.firstEdgeId.clear.insertTail (-1)
  return { foundIds, distances, firstEdgeId }

/-- The insertion of a row at the index that the search encodes. -/
def insertRow (t : HLDijkstra) (idx node dist edge : Int) : Run HLDijkstra := do
  let idx := (idx + 1) * (-1)
  let foundIds ← t.foundIds.insertAtIdx node idx
  let distances ← t.distances.insertAtIdx dist idx
  let firstEdgeId ← t.firstEdgeId.insertAtIdx edge idx
  return { foundIds, distances, firstEdgeId }

/-- One iteration of the loop over the edges of the node; the list has the
neighbours found so far. -/
def addNeighbour (E : Edges) (levels : List Int) (nodeLvl : Int) (state : HLDijkstra × List Int)
    (edgeId : Int) : Run (HLDijkstra × List Int) := do
  let (t, neighbourIds) := state
  let destNode ← E.getDest edgeId
  if (← rd levels destNode) < nodeLvl then
    -- ignore lower lvl nodes
    return (t, neighbourIds)
  else
    let edgeDist ← E.getDist edgeId
    let insertIdx ← t.foundIds.getIdx destNode
    if insertIdx < 0 then
      let t ← insertRow t insertIdx destNode edgeDist edgeId
      return (t, neighbourIds ++ [destNode])
    else
      -- the source prints an error message here and goes on
      return (t, neighbourIds ++ [destNode])

/-- One iteration of the loop over the labels of a neighbour. -/
def addLabel (baseDist baseEdge : Int) (labels dist : List Int) (t : HLDijkstra) (i : Int) :
    Run HLDijkstra := do
  let currLabelNode ← rd labels i
  let currLabelIdx ← t.foundIds.getIdx currLabelNode
  if currLabelIdx < 0 then
    -- new node found
    insertRow t currLabelIdx currLabelNode (baseDist + (← rd dist i)) baseEdge
  else
    let newDistance := baseDist + (← rd dist i)
    let oldDistance ← t.distances.get currLabelIdx
    if newDistance < oldDistance then
      let distances ← t.distances.updateValue newDistance currLabelIdx
      let firstEdgeId ← t.firstEdgeId.updateValue baseEdge currLabelIdx
      return { t with distances, firstEdgeId }
    else return t

/-- One iteration of the loop over the neighbours. -/
def addLabelsOf (L : Labels) (t : HLDijkstra) (baseNodeId : Int) : Run HLDijkstra := do
  let baseIdx ← t.foundIds.getIdx baseNodeId
  let baseDist ← t.distances.get baseIdx
  let baseEdge ← t.firstEdgeId.get baseIdx
  let labels ← L.getLabels baseNodeId
  let dist ← L.getDist baseNodeId
  (indices 0 labels.length).foldlM (addLabel baseDist baseEdge labels dist) t

/-- One iteration of the loop of `removeRedundancies`, at the index `idx`. -/
def removeRedundancy (L : Labels) (nodeId : Int) (state : HLDijkstra × Int) :
    Run (HLDijkstra × Int) := do
  let (t, idx) := state
  let labelNode ← t.foundIds.get idx
  if labelNode = nodeId then return (t, idx + 1)
  else if ← L.isRedundant labelNode (← t.distances.get idx) t.foundIds t.distances then
    let foundIds ← t.foundIds.removeAtIdx idx
    let distances ← t.distances.removeAtIdx idx
    let firstEdgeId ← t.firstEdgeId.removeAtIdx idx
    -- no need to increase idx, as an element was removed
    return ({ foundIds, distances, firstEdgeId }, idx)
  else return (t, idx + 1)

def removeRedundancies (L : Labels) (t : HLDijkstra) (nodeId : Int) : Run HLDijkstra := do
  let (t, _) ← whileLoop (fun state => return state.2 < state.1.foundIds.size)
    (removeRedundancy L nodeId) t.foundIds.size.toNat (t, 0)
  return t

/-- `addLabels(nodeId)`. -/
def addLabels (L : Labels) (t : HLDijkstra) (nodeId : Int) : Run (HLDijkstra × Labels) := do
  let t ← removeRedundancies L t nodeId
  let L ← L.addLabels nodeId (← t.foundIds.toArray) (← t.firstEdgeId.toArray)
    (← t.distances.toArray)
  return (t, L)

/-- `calcLabels(nodeId)`. -/
def calcLabels (E : Edges) (D : DynamicGrid) (levels : List Int) (state : HLDijkstra × Labels)
    (nodeId : Int) : Run (HLDijkstra × Labels) := do
  let (t, L) := state
  let t ← startTable t nodeId
  let edgeCount ← D.getAllEdgeCount nodeId
  let edgeIds ← D.getAllEdges nodeId
  let nodeLvl ← rd levels nodeId
  let (t, neighbourIds) ← (← slice edgeIds 0 edgeCount).foldlM (addNeighbour E levels nodeLvl) (t, [])
  let t ← neighbourIds.foldlM (addLabelsOf L) t
  addLabels L t nodeId

/-- `run()` of the thread for the nodes of `calcOrder` between two indices. -/
def run (E : Edges) (D : DynamicGrid) (levels calcOrder : List Int) (L : Labels)
    (startNodeIdx endNodeIdx : Int) : Run Labels := do
  let (_, L) ← (indices startNodeIdx endNodeIdx).foldlM
    (fun state nodeIdx => do calcLabels E D levels state (← rd calcOrder nodeIdx)) (new, L)
  return L

/-! ## The table

The three sets are the columns of one table.  What a step makes of the rows does
not depend on what else the arrays of the sets hold, so each lemma first names
the new rows and then speaks of all tables that have the old ones. -/

/-- The rows of a table: sorted keys and two columns. -/
structure Rows (xs ds es : List Int) : Prop where
  sorted : xs.Pairwise (· < ·)
  small : ∀ x ∈ xs, x < MAX_VALUE
  distLength : ds.length = xs.length
  edgeLength : es.length = xs.length

/-- The table has the rows `xs`, `ds` and `es`. -/
structure Table (t : HLDijkstra) (xs ds es : List Int) : Prop where
  ids : OrderedIntSet.Holds t.foundIds xs
  ordered : t.foundIds.orderedBySorting = true
  dist : OrderedIntSet.Holds t.distances ds
  edge : OrderedIntSet.Holds t.firstEdgeId es

variable {t : HLDijkstra} {xs ds es : List Int}

theorem Table.getIdx (h : Table t xs ds es) (hr : Rows xs ds es) {x : Int} (hx : x < MAX_VALUE) :
    t.foundIds.getIdx x = .ok (encodeRank xs x) :=
  OrderedIntSet.getIdx_spec h.ordered (l := []) (by rw [List.append_nil]; exact h.ids) (by simp)
    hr.sorted hr.small hx

/-- The three sets of a thread, whatever they hold. -/
structure Ready (t : HLDijkstra) : Prop where
  ids : ∃ xs, OrderedIntSet.Holds t.foundIds xs
  ordered : t.foundIds.orderedBySorting = true
  dist : ∃ ds, OrderedIntSet.Holds t.distances ds
  edge : ∃ es, OrderedIntSet.Holds t.firstEdgeId es

theorem ready_new : Ready new :=
  ⟨⟨[], OrderedIntSet.new_holds true 1000 (by decide)⟩, rfl,
    ⟨[], OrderedIntSet.new_holds false 1000 (by decide)⟩,
    ⟨[], OrderedIntSet.new_holds false 1000 (by decide)⟩⟩

theorem Table.ready (h : Table t xs ds es) : Ready t :=
  ⟨⟨xs, h.ids⟩, h.ordered, ⟨ds, h.dist⟩, ⟨es, h.edge⟩⟩

theorem startTable_spec (h : Ready t) {u : Int} (hu : u < MAX_VALUE) :
    ∃ t', startTable t u = .ok t' ∧ Table t' [u] [0] [-1] := by
  obtain ⟨⟨xs, hxs⟩, hord, ⟨ds, hds⟩, ⟨es, hes⟩⟩ := h
  have hclear := OrderedIntSet.clear_holds hxs.increase
  obtain ⟨d', hd', _, hdh⟩ := OrderedIntSet.insertTail_spec (OrderedIntSet.clear_holds hds.increase) 0
  obtain ⟨e', he', _, heh⟩ := OrderedIntSet.insertTail_spec (OrderedIntSet.clear_holds hes.increase) (-1)
  obtain ⟨y, rest, helem, hcount, hinc, hord', hrest⟩ := OrderedIntSet.growIfFull_holds hclear
  have hmax : y = MAX_VALUE ∧ ∀ x ∈ rest, x = MAX_VALUE := hrest hord
  have hsearch : binarySearch t.foundIds.clear.growIfFull.elements u = .ok (-1) := by
    have hpad : Padded t.foundIds.clear.growIfFull.elements [] (y :: rest).length := by
      refine ⟨?_, by simp, by simp⟩
      rw [helem, List.nil_append, List.nil_append]
      apply List.eq_replicate_of_mem
      intro x hx
      rcases List.mem_cons.mp hx with rfl | hx
      · exact hmax.1
      · exact hmax.2 x hx
    rw [binarySearch_padded hpad hu]
    rfl
  have hshift : shiftInsert t.foundIds.clear.growIfFull.elements 0
      t.foundIds.clear.growIfFull.elementCount u = .ok ([u] ++ rest) := by
    rw [helem, hcount]
    exact shiftInsert_eq [] y rest (le_refl 0) u
  refine ⟨{ foundIds := { t.foundIds.clear.growIfFull with
      elements := [u] ++ rest
      elementCount := t.foundIds.clear.growIfFull.elementCount + 1 }
            distances := d', firstEdgeId := e' }, ?_,
    ⟨⟨by simp [hcount], hinc, rest, rfl, fun _ => hmax.2⟩, hord'.trans hord, hdh, heh⟩⟩
  unfold startTable OrderedIntSet.insertSorted
  simp only [hsearch, ok_bind]
  rw [if_neg (by omega)]
  simp only [show ((-1 : Int) + 1) * (-1) = 0 by omega, hshift, ok_bind, hd', he', pure_eq_ok]

theorem rows_start {u : Int} (hu : u < MAX_VALUE) : Rows [u] [0] [-1] :=
  ⟨by simp, by simpa using hu, rfl, rfl⟩

/-- A new row. -/
theorem insertRow_spec (h : Rows xs ds es) {x : Int} (hx : x < MAX_VALUE) (hnot : x ∉ xs)
    (d e : Int) :
    ∃ xs' ds' es', Rows xs' ds' es' ∧
      (∀ y, assoc xs' ds' y = if y = x then some d else assoc xs ds y) ∧
      (∀ y, assoc xs' es' y = if y = x then some e else assoc xs es y) ∧
      ∀ t, Table t xs ds es →
        ∃ t', insertRow t (encodeRank xs x) x d e = .ok t' ∧ Table t' xs' ds' es' := by
  have hle := rank_le_length xs x
  have hidx : (encodeRank xs x + 1) * (-1) = (rank xs x : Int) := by
    rw [encodeRank, if_neg hnot]
    ring
  refine ⟨xs.insertIdx (rank xs x) x, ds.insertIdx (rank xs x) d, es.insertIdx (rank xs x) e,
    ⟨pairwise_insertIdx_rank h.sorted hnot, ?_, ?_, ?_⟩,
    fun y => assoc_insertIdx_rank h.distLength hnot d y,
    fun y => assoc_insertIdx_rank h.edgeLength hnot e y, ?_⟩
  · intro y hy
    rcases mem_insertIdx_rank.mp hy with rfl | hy
    · exact hx
    · exact h.small y hy
  · rw [List.length_insertIdx_of_le_length hle, List.length_insertIdx_of_le_length
      (by rw [h.distLength]; exact hle), h.distLength]
  · rw [List.length_insertIdx_of_le_length hle, List.length_insertIdx_of_le_length
      (by rw [h.edgeLength]; exact hle), h.edgeLength]
  · intro t ht
    obtain ⟨s₁, h₁, hord₁, hs₁⟩ := OrderedIntSet.insertAtIdx_spec ht.ids hle x
    obtain ⟨s₂, h₂, _, hs₂⟩ := OrderedIntSet.insertAtIdx_spec ht.dist
      (n := rank xs x) (by rw [h.distLength]; exact hle) d
    obtain ⟨s₃, h₃, _, hs₃⟩ := OrderedIntSet.insertAtIdx_spec ht.edge
      (n := rank xs x) (by rw [h.edgeLength]; exact hle) e
    refine ⟨⟨s₁, s₂, s₃⟩, ?_, ⟨hs₁, hord₁.trans ht.ordered, hs₂, hs₃⟩⟩
    unfold insertRow
    simp only [hidx, h₁, h₂, h₃, ok_bind]
    rfl

/-- Reading a row. -/
theorem Table.read (h : Table t xs ds es) (hr : Rows xs ds es) {x d e : Int}
    (hd : assoc xs ds x = some d) (he : assoc xs es x = some e) :
    encodeRank xs x = (rank xs x : Int) ∧ t.distances.get (rank xs x : Int) = .ok d ∧
      t.firstEdgeId.get (rank xs x : Int) = .ok e := by
  have hmem := mem_of_assoc hd
  have hget := getElem?_rank hr.sorted hmem
  rw [assoc_of_getElem? (nodup_of_sorted hr.sorted) hget] at hd he
  exact ⟨by rw [encodeRank, if_pos hmem], OrderedIntSet.get_spec h.dist hd,
    OrderedIntSet.get_spec h.edge he⟩

/-- New data in a row. -/
theorem updateRow_spec (h : Rows xs ds es) {x : Int} (hmem : x ∈ xs) (d e : Int) :
    ∃ ds' es', Rows xs ds' es' ∧
      (∀ y, assoc xs ds' y = if y = x then some d else assoc xs ds y) ∧
      (∀ y, assoc xs es' y = if y = x then some e else assoc xs es y) ∧
      ∀ t, Table t xs ds es → ∃ s₂ s₃, t.distances.updateValue d (rank xs x : Int) = .ok s₂ ∧
        t.firstEdgeId.updateValue e (rank xs x : Int) = .ok s₃ ∧
        Table { t with distances := s₂, firstEdgeId := s₃ } xs ds' es' := by
  have hlt := rank_lt_length h.sorted hmem
  refine ⟨ds.set (rank xs x) d, es.set (rank xs x) e, ⟨h.sorted, h.small, ?_, ?_⟩,
    fun y => assoc_set_rank h.sorted h.distLength hmem d y,
    fun y => assoc_set_rank h.sorted h.edgeLength hmem e y, ?_⟩
  · rw [List.length_set, h.distLength]
  · rw [List.length_set, h.edgeLength]
  · intro t ht
    obtain ⟨s₂, h₂, _, hs₂⟩ := OrderedIntSet.updateValue_spec ht.dist
      (n := rank xs x) (by rw [h.distLength]; exact hlt) d
    obtain ⟨s₃, h₃, _, hs₃⟩ := OrderedIntSet.updateValue_spec ht.edge
      (n := rank xs x) (by rw [h.edgeLength]; exact hlt) e
    exact ⟨s₂, s₃, h₂, h₃, ht.ids, ht.ordered, hs₂, hs₃⟩

/-- One label of a neighbour. -/
theorem addLabel_spec (h : Rows xs ds es) {labels dist : List Int} {i : Nat} {x l : Int}
    (hx : labels[i]? = some x) (hl : dist[i]? = some l) (hsmall : x < MAX_VALUE)
    (baseDist baseEdge : Int) :
    ∃ xs' ds' es', Rows xs' ds' es' ∧
      ((∀ d, assoc xs ds x = some d → baseDist + l < d) ∧
          (∀ y, assoc xs' ds' y = if y = x then some (baseDist + l) else assoc xs ds y) ∧
          (∀ y, assoc xs' es' y = if y = x then some baseEdge else assoc xs es y) ∨
        (∃ d, assoc xs ds x = some d ∧ d ≤ baseDist + l) ∧ xs' = xs ∧ ds' = ds ∧ es' = es) ∧
      ∀ t, Table t xs ds es →
        ∃ t', addLabel baseDist baseEdge labels dist t i = .ok t' ∧ Table t' xs' ds' es' := by
  by_cases hmem : x ∈ xs
  · obtain ⟨d, hd⟩ := exists_assoc_of_mem h.distLength hmem
    obtain ⟨e, he⟩ := exists_assoc_of_mem h.edgeLength hmem
    have hread : ∀ t, Table t xs ds es → addLabel baseDist baseEdge labels dist t i =
        if baseDist + l < d then do
          let distances ← t.distances.updateValue (baseDist + l) (rank xs x : Int)
          let firstEdgeId ← t.firstEdgeId.updateValue baseEdge (rank xs x : Int)
          return { t with distances, firstEdgeId }
        else return t := by
      intro t ht
      obtain ⟨hidx, hgd, _⟩ := ht.read h hd he
      unfold addLabel
      rw [rd_of_getElem? hx, ok_bind, ht.getIdx h hsmall, ok_bind, hidx, if_neg (by omega),
        rd_of_getElem? hl, ok_bind, hgd, ok_bind]
    by_cases hless : baseDist + l < d
    · obtain ⟨ds', es', hr', hD, hF, hrun⟩ := updateRow_spec h hmem (baseDist + l) baseEdge
      refine ⟨xs, ds', es', hr', Or.inl ⟨?_, hD, hF⟩, ?_⟩
      · intro d' hd'
        rw [hd, Option.some.injEq] at hd'
        omega
      · intro t ht
        obtain ⟨s₂, s₃, h₂, h₃, ht'⟩ := hrun t ht
        refine ⟨_, ?_, ht'⟩
        rw [hread t ht, if_pos hless]
        simp only [h₂, h₃, ok_bind, pure_eq_ok]
    · refine ⟨xs, ds, es, h, Or.inr ⟨⟨d, hd, by omega⟩, rfl, rfl, rfl⟩, ?_⟩
      intro t ht
      exact ⟨t, by rw [hread t ht, if_neg hless]; rfl, ht⟩
  · obtain ⟨xs', ds', es', hr', hD, hF, hrun⟩ :=
      insertRow_spec h hsmall hmem (baseDist + l) baseEdge
    refine ⟨xs', ds', es', hr', Or.inl ⟨?_, hD, hF⟩, ?_⟩
    · intro d hd
      rw [assoc_of_not_mem hmem] at hd
      simp at hd
    · intro t ht
      obtain ⟨t', ht', htable⟩ := hrun t ht
      refine ⟨t', ?_, htable⟩
      unfold addLabel
      rw [rd_of_getElem? hx, ok_bind, ht.getIdx h hsmall, ok_bind,
        if_pos (by rw [encodeRank, if_neg hmem]; omega), rd_of_getElem? hl, ok_bind, ht']

end HLDijkstra

end SeaRouter
