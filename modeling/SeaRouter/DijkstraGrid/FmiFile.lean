import SeaRouter.Lib.Text
import SeaRouter.Lib.Collections

/-!
# `importFmiFile` of `Grid.java` and `DynamicGrid.java`: the file

Both importers read a text in the same way, up to the point where the arrays
are filled: `readFmi` is this part.  The nodes are numbered in the order of the
file, the edges are sorted by their start, and the reverse edges that are
missing in the file are added.

A `double` is a value of an arbitrary type `δ`, read by `parseDouble`.  The
entries of the adjacency map are visited in the order `entryOrder`.

* `Describes` says which nodes and edges a text lists.  `readRecords_spec`
  reads them back, whatever the text looks like otherwise.
* `completeEdges_spec` is the completion: it adds the reverse of each edge in
  front of the first edge of the same start that has a reverse in the file, and
  ends with an exception if some destination has no edges at all.
* `readFmi_spec` puts the two together, and `Imported` is what holds of every
  text that is read.
-/

namespace SeaRouter

open Java

/-- A node of the file. -/
structure TmpNode (δ : Type) where
  id : Int
  latitude : δ
  longitude : δ
deriving DecidableEq, Repr

/-- An edge of the file, between the internal node ids. -/
structure TmpEdge where
  startNode : Int
  destNode : Int
  dist : Int
deriving DecidableEq, Repr

namespace FmiFile

variable {δ : Type}

/-! ## The model -/

/-- `br.readLine().trim()`: the line, and the lines that follow. -/
def readTrimmed : List (List Char) → Run (List Char × List (List Char))
  | [] => .error .nullPointer
  | line :: br => .ok (trim line, br)

/-- The node that a line describes. -/
def parseNode (parseDouble : List Char → Run δ) (line : List Char) : Run (TmpNode δ) := do
  let split := split line
  let id ← parseInt (← rd split 0)
  let latitude ← parseDouble (← rd split 1)
  let longitude ← parseDouble (← rd split 2)
  return { id, latitude, longitude }

/-- The edge that a line describes. -/
def parseEdge (fileNodeIdToInternalUsedId : HashMap Int Int) (line : List Char) : Run TmpEdge := do
  let split := split line
  let startNode ← fileNodeIdToInternalUsedId.get (← parseInt (← rd split 0))
  let destNode ← fileNodeIdToInternalUsedId.get (← parseInt (← rd split 1))
  let dist ← parseInt (← rd split 2)
  return { startNode, destNode, dist }

/-- The reader after some nodes: the lines left, the nodes and their numbers. -/
abbrev NodeReader (δ : Type) := List (List Char) × List (TmpNode δ) × HashMap Int Int

def readNode (parseDouble : List Char → Run δ) (state : NodeReader δ) (nodeIdx : Int) :
    Run (NodeReader δ) := do
  let (br, nodeList, fileNodeIdToInternalUsedId) := state
  let (line, br) ← readTrimmed br
  let node ← parseNode parseDouble line
  return (br, nodeList ++ [node], fileNodeIdToInternalUsedId.put node.id nodeIdx)

def readEdge (fileNodeIdToInternalUsedId : HashMap Int Int)
    (state : List (List Char) × List TmpEdge) (_ : Int) : Run (List (List Char) × List TmpEdge) := do
  let (br, edgeList) := state
  let (line, br) ← readTrimmed br
  let edge ← parseEdge fileNodeIdToInternalUsedId line
  return (br, edgeList ++ [edge])

/-- The number of a node; each id of the list was put into the map. -/
def internalId (fileNodeIdToInternalUsedId : HashMap Int Int) (node : TmpNode δ) : Int :=
  match fileNodeIdToInternalUsedId.get node.id with
  | .ok nodeIdx => nodeIdx
  | .error _ => 0

/-- What the text lists: the two counts, the nodes in the order of their
numbers, and the edges sorted by their start. -/
structure Records (δ : Type) where
  noNodes : Int
  noEdges : Int
  nodeList : List (TmpNode δ)
  edgeList : List TmpEdge
deriving DecidableEq, Repr

/-- The part of the import that reads the text. -/
def readRecords (parseDouble : List Char → Run δ) (text : List Char) : Run (Records δ) := do
  let br := (lines text).drop 2
  let (line, br) ← readTrimmed br
  let noNodes ← parseInt line
  let (line, br) ← readTrimmed br
  let noEdges ← parseInt line
  let (br, nodeList, fileNodeIdToInternalUsedId) ←
    (indices 0 noNodes).foldlM (readNode parseDouble) (br, [], [])
  let nodeList := sortBy (internalId fileNodeIdToInternalUsedId) nodeList
  let (_, edgeList) ← (indices 0 noEdges).foldlM (readEdge fileNodeIdToInternalUsedId) (br, [])
  let edgeList := sortBy TmpEdge.startNode edgeList
  return { noNodes, noEdges, nodeList, edgeList }

/-- One step of the loop that builds the adjacency map. -/
def addAdjacence (edgeList : List TmpEdge) (adjacenceMap : HashMap Int (List TmpEdge))
    (edgeIdx : Int) : Run (HashMap Int (List TmpEdge)) := do
  let edge ← rd edgeList edgeIdx
  let adjacenceMap :=
    if adjacenceMap.containsKey edge.startNode then adjacenceMap
    else adjacenceMap.put edge.startNode []
  let edges ← adjacenceMap.get edge.startNode
  return adjacenceMap.put edge.startNode (edges ++ [edge])

/-- The edge `e'` is the reverse of `e`, whatever its length. -/
def IsOpposite (e e' : TmpEdge) : Prop := e'.startNode = e.destNode ∧ e'.destNode = e.startNode

instance (e e' : TmpEdge) : Decidable (IsOpposite e e') :=
  inferInstanceAs (Decidable (e'.startNode = e.destNode ∧ e'.destNode = e.startNode))

/-- The reverse edge that is added. -/
def reverse (e : TmpEdge) : TmpEdge := ⟨e.destNode, e.startNode, e.dist⟩

/-- The state of the completion: `oppositeEdgeFound`, `noEdges` and the edges
that were missing. -/
abbrev Completion := Bool × Int × List TmpEdge

/-- The body of the loop over the edges of one start node. -/
def checkEdge (adjacenceMap : HashMap Int (List TmpEdge)) (state : Completion) (revEdge : TmpEdge) :
    Run Completion := do
  let (oppositeEdgeFound, noEdges, missing) := state
  let toCheck ← adjacenceMap.get revEdge.destNode
  -- the flag was set to false before the first edge of the node, not for each edge
  let oppositeEdgeFound :=
    oppositeEdgeFound || toCheck.any (fun edges => IsOpposite revEdge edges)
  if oppositeEdgeFound then return (oppositeEdgeFound, noEdges, missing)
  else return (oppositeEdgeFound, noEdges + 1, missing ++ [reverse revEdge])

/-- The body of the loop over the entries of the adjacency map. -/
def checkEntry (adjacenceMap : HashMap Int (List TmpEdge)) (state : Int × List TmpEdge)
    (key : Int) : Run (Int × List TmpEdge) := do
  let reverseEdgeStartNodesToCheck ← adjacenceMap.get key
  let (_, noEdges, missing) ←
    reverseEdgeStartNodesToCheck.foldlM (checkEdge adjacenceMap) (false, state)
  return (noEdges, missing)

/-- The part of the import that makes the graph undirected. -/
def completeEdges (entryOrder : List Int → List Int) (r : Records δ) : Run (Records δ) := do
  let adjacenceMap ← (indices 0 r.noEdges).foldlM (addAdjacence r.edgeList) []
  let (noEdges, additionalEdgesThatWereMissing) ←
    (entryOrder adjacenceMap.keys).foldlM (checkEntry adjacenceMap) (r.noEdges, [])
  let edgeList := sortBy TmpEdge.startNode (r.edgeList ++ additionalEdgesThatWereMissing)
  return { r with noEdges, edgeList }

/-- The part that both importers share. -/
def readFmi (parseDouble : List Char → Run δ) (entryOrder : List Int → List Int)
    (text : List Char) : Run (Records δ) := do
  completeEdges entryOrder (← readRecords parseDouble text)

/-- An array of `n` elements that a loop takes one by one from a list. -/
def fillFrom {α τ : Type} (n : Int) (list : List τ) (f : τ → α) : Run (List α) :=
  if n < 0 then .error .negativeArraySize
  else (indices 0 n).mapM (fun i => do return f (← rd list i))

theorem fillFrom_spec {α τ : Type} {n : Int} {list : List τ} (hn : 0 ≤ n)
    (hlen : list.length = n.toNat) (f : τ → α) : fillFrom n list f = .ok (list.map f) := by
  have hcast : n = ((list.map f).length : Int) := by
    rw [List.length_map, hlen]
    omega
  rw [fillFrom, if_neg (not_lt.mpr hn), hcast, mapM_indices]
  intro i y hy
  rw [List.getElem?_map, Option.map_eq_some_iff] at hy
  obtain ⟨x, hx, rfl⟩ := hy
  rw [rd_of_getElem? hx, ok_bind, pure_eq_ok]

/-! ## The records of a text -/

/-- The three numbers of the line of an edge, with the node ids of the file. -/
def edgeFields (line : List Char) : Run (Int × Int × Int) := do
  let split := split line
  let startId ← parseInt (← rd split 0)
  let destId ← parseInt (← rd split 1)
  let dist ← parseInt (← rd split 2)
  return (startId, destId, dist)

/-- The text lists `nodes` and `edges`: two lines that are not read, the two
counts, the nodes, the edges, and whatever follows.  The ids of the nodes are
unique, and each edge joins two of them. -/
structure Describes (parseDouble : List Char → Run δ) (text : List Char)
    (nodes : List (TmpNode δ)) (edges : List (Int × Int × Int)) : Prop where
  layout : ∃ l₁ l₂ nodeCount edgeCount nodeLines edgeLines rest,
    lines text = l₁ :: l₂ :: nodeCount :: edgeCount :: (nodeLines ++ (edgeLines ++ rest)) ∧
    parseInt (trim nodeCount) = .ok (nodes.length : Int) ∧
    parseInt (trim edgeCount) = .ok (edges.length : Int) ∧
    List.Forall₂ (fun line node => parseNode parseDouble (trim line) = .ok node) nodeLines nodes ∧
    List.Forall₂ (fun line e => edgeFields (trim line) = .ok e) edgeLines edges
  unique : (nodes.map TmpNode.id).Nodup
  declared : ∀ e ∈ edges, e.1 ∈ nodes.map TmpNode.id ∧ e.2.1 ∈ nodes.map TmpNode.id

/-- The number of the node with the id `id`: its place in the file. -/
def place (nodes : List (TmpNode δ)) (id : Int) : Int := ((nodes.map TmpNode.id).idxOf id : Nat)

/-- An edge of the file between the numbers of its nodes. -/
def internal (nodes : List (TmpNode δ)) (e : Int × Int × Int) : TmpEdge :=
  ⟨place nodes e.1, place nodes e.2.1, e.2.2⟩

/-- The edges of the file, in the order of the file. -/
def fileEdges (nodes : List (TmpNode δ)) (edges : List (Int × Int × Int)) : List TmpEdge :=
  edges.map (internal nodes)

variable {parseDouble : List Char → Run δ} {nodes : List (TmpNode δ)}
  {edges : List (Int × Int × Int)}

theorem place_of_getElem? (hu : (nodes.map TmpNode.id).Nodup) {i : Nat} {node : TmpNode δ}
    (h : nodes[i]? = some node) : place nodes node.id = i := by
  obtain ⟨hi, rfl⟩ := List.getElem?_eq_some_iff.mp h
  have hi' : i < (nodes.map TmpNode.id).length := by rw [List.length_map]; exact hi
  have := hu.idxOf_getElem i hi'
  rw [List.getElem_map] at this
  rw [place, this]

/-- The map after the first `k` nodes. -/
def Numbers (nodes : List (TmpNode δ)) (k : Nat) (m : HashMap Int Int) : Prop :=
  ∀ (i : Nat) node, i < k → nodes[i]? = some node → m.get node.id = .ok (i : Int)

theorem Numbers.put (hu : (nodes.map TmpNode.id).Nodup) {k : Nat} {m : HashMap Int Int}
    (h : Numbers nodes k m) {node : TmpNode δ} (hk : nodes[k]? = some node) :
    Numbers nodes (k + 1) (m.put node.id k) := by
  intro i other hi hother
  rw [HashMap.get_put]
  have hplace := place_of_getElem? hu hother
  have hplace' := place_of_getElem? hu hk
  split_ifs with hid
  · rw [hid, hplace'] at hplace
    rw [hplace]
  · apply h i other _ hother
    by_contra hge
    obtain rfl : i = k := by omega
    rw [hk, Option.some.injEq] at hother
    exact hid (by rw [hother])

theorem Numbers.get {m : HashMap Int Int} (h : Numbers nodes nodes.length m) {id : Int}
    (hid : id ∈ nodes.map TmpNode.id) : m.get id = .ok (place nodes id) := by
  have hlt : (nodes.map TmpNode.id).idxOf id < nodes.length := by
    have := List.idxOf_lt_length_of_mem hid
    rwa [List.length_map] at this
  have hget : (nodes.map TmpNode.id)[(nodes.map TmpNode.id).idxOf id]? = some id :=
    List.getElem?_idxOf hid
  rw [List.getElem?_map, Option.map_eq_some_iff] at hget
  obtain ⟨node, hnode, hnid⟩ := hget
  rw [← hnid, place]
  rw [hnid]
  have := h _ node hlt hnode
  rwa [hnid] at this

theorem readNode_spec (hu : (nodes.map TmpNode.id).Nodup) {nodeLines : List (List Char)}
    (hlines : List.Forall₂ (fun line node => parseNode parseDouble (trim line) = .ok node)
      nodeLines nodes) (rest : List (List Char)) :
    ∃ m, (indices 0 nodes.length).foldlM (readNode parseDouble) (nodeLines ++ rest, [], [])
        = .ok (rest, nodes, m) ∧ Numbers nodes nodes.length m := by
  have hlen := hlines.length_eq
  obtain ⟨⟨br, nl, m⟩, hrun, hbr, hnl, hm⟩ := foldlM_indices (f := readNode parseDouble)
    (P := fun k state => state.1 = nodeLines.drop k ++ rest ∧ state.2.1 = nodes.take k ∧
      Numbers nodes k state.2.2)
    (Nat.zero_le nodes.length) (b := (nodeLines ++ rest, [], []))
    ⟨rfl, by simp, fun i node hi _ => absurd hi (Nat.not_lt_zero i)⟩ (by
      rintro k ⟨br, nl, m⟩ _ hk ⟨hbr, hnl, hm⟩
      simp only at hbr hnl hm
      have hk' : k < nodeLines.length := by omega
      have hparse := (List.forall₂_iff_get.mp hlines).2 k hk' hk
      rw [List.get_eq_getElem, List.get_eq_getElem] at hparse
      refine ⟨(nodeLines.drop (k + 1) ++ rest, nodes.take (k + 1), m.put nodes[k].id k), ?_,
        rfl, rfl, hm.put hu (List.getElem?_eq_getElem hk)⟩
      simp only [readNode, hbr, hnl, List.drop_eq_getElem_cons hk', List.cons_append,
        readTrimmed, ok_bind, hparse, pure_eq_ok, Except.ok.injEq, Prod.mk.injEq, true_and,
        and_true]
      rw [List.take_succ_eq_append_getElem hk])
  refine ⟨m, ?_, hm⟩
  simp only at hbr hnl
  have h0 : ((0 : Nat) : Int) = 0 := rfl
  rw [h0] at hrun
  rw [hrun, hbr, hnl, ← hlen, List.drop_length, List.nil_append, hlen, List.take_length]

theorem parseEdge_of_fields {m : HashMap Int Int} {line : List Char} {e : Int × Int × Int} {u v : Int}
    (h : edgeFields line = .ok e) (hu : m.get e.1 = .ok u) (hv : m.get e.2.1 = .ok v) :
    parseEdge m line = .ok ⟨u, v, e.2.2⟩ := by
  simp only [edgeFields, bind_eq_ok] at h
  obtain ⟨s₀, h₀, a, ha, s₁, h₁, b, hb, s₂, h₂, d, hd, he⟩ := h
  obtain rfl : (a, b, d) = e := by simpa using he
  simp only [parseEdge, h₀, h₁, h₂, ha, hb, hd, ok_bind] at hu hv ⊢
  rw [hu, ok_bind, hv, ok_bind, pure_eq_ok]

theorem readEdge_spec {m : HashMap Int Int} (hm : Numbers nodes nodes.length m)
    {edgeLines : List (List Char)}
    (hlines : List.Forall₂ (fun line e => edgeFields (trim line) = .ok e) edgeLines edges)
    (hdecl : ∀ e ∈ edges, e.1 ∈ nodes.map TmpNode.id ∧ e.2.1 ∈ nodes.map TmpNode.id)
    (rest : List (List Char)) :
    (indices 0 edges.length).foldlM (readEdge m) (edgeLines ++ rest, [])
      = .ok (rest, fileEdges nodes edges) := by
  have hlen := hlines.length_eq
  obtain ⟨⟨br, el⟩, hrun, hbr, hel⟩ := foldlM_indices (f := readEdge m)
    (P := fun k state => state.1 = edgeLines.drop k ++ rest ∧
      state.2 = (fileEdges nodes edges).take k)
    (Nat.zero_le edges.length) (b := (edgeLines ++ rest, [])) ⟨rfl, by simp⟩ (by
      rintro k ⟨br, el⟩ _ hk ⟨hbr, hel⟩
      simp only at hbr hel
      have hk' : k < edgeLines.length := by omega
      have hfields := (List.forall₂_iff_get.mp hlines).2 k hk' hk
      rw [List.get_eq_getElem, List.get_eq_getElem] at hfields
      have hd := hdecl edges[k] (List.getElem_mem hk)
      have hparse := parseEdge_of_fields hfields (hm.get hd.1) (hm.get hd.2)
      refine ⟨(edgeLines.drop (k + 1) ++ rest, (fileEdges nodes edges).take (k + 1)), ?_,
        rfl, rfl⟩
      have hkf : k < (fileEdges nodes edges).length := by rw [fileEdges, List.length_map]; exact hk
      simp only [readEdge, hbr, hel, List.drop_eq_getElem_cons hk', List.cons_append,
        readTrimmed, ok_bind, hparse, pure_eq_ok, Except.ok.injEq, Prod.mk.injEq, true_and]
      rw [List.take_succ_eq_append_getElem hkf]
      simp [fileEdges, internal])
  simp only at hbr hel
  have h0 : ((0 : Nat) : Int) = 0 := rfl
  rw [h0] at hrun
  have hlen' : edges.length = (fileEdges nodes edges).length := by rw [fileEdges, List.length_map]
  rw [hrun, hbr, hel, ← hlen, List.drop_length, List.nil_append, hlen, hlen', List.take_length]

/-- The numbers of the nodes are in the order of the file, so that sorting
changes nothing. -/
theorem sortBy_internalId {m : HashMap Int Int} (hm : Numbers nodes nodes.length m) :
    sortBy (internalId m) nodes = nodes := by
  apply sortBy_of_sorted
  rw [List.pairwise_iff_getElem]
  intro i j hi hj hij
  have h1 := hm i _ hi (List.getElem?_eq_getElem hi)
  have h2 := hm j _ hj (List.getElem?_eq_getElem hj)
  simp only [internalId, h1, h2]
  omega

theorem readRecords_spec {text : List Char} (h : Describes parseDouble text nodes edges) :
    readRecords parseDouble text = .ok ⟨nodes.length, edges.length, nodes,
      sortBy TmpEdge.startNode (fileEdges nodes edges)⟩ := by
  obtain ⟨l₁, l₂, c₁, c₂, nodeLines, edgeLines, rest, hlines, hc₁, hc₂, hnodes, hedges⟩ := h.layout
  obtain ⟨m, hrun, hm⟩ := readNode_spec h.unique hnodes (edgeLines ++ rest)
  have hedge := readEdge_spec hm hedges h.declared rest
  have hdrop : (l₁ :: l₂ :: c₁ :: c₂ :: (nodeLines ++ (edgeLines ++ rest))).drop 2
      = c₁ :: c₂ :: (nodeLines ++ (edgeLines ++ rest)) := rfl
  simp only [readRecords, hlines, hdrop, readTrimmed, ok_bind, hc₁, hc₂, hrun, hedge,
    sortBy_internalId hm, pure_eq_ok]

/-! ## The completion -/

/-- Some edge of the list is the reverse of `e`. -/
def Opposed (E : List TmpEdge) (e : TmpEdge) : Prop := ∃ e' ∈ E, IsOpposite e e'

instance (E : List TmpEdge) (e : TmpEdge) : Decidable (Opposed E e) :=
  inferInstanceAs (Decidable (∃ e' ∈ E, IsOpposite e e'))

/-- The edges that start in `k`. -/
def outgoing (E : List TmpEdge) (k : Int) : List TmpEdge := E.filter (fun e => e.startNode = k)

/-- The edges of `k` in front of its first edge that has a reverse. -/
def unanswered (E : List TmpEdge) (k : Int) : List TmpEdge :=
  (outgoing E k).takeWhile (fun e => ¬ Opposed E e)

variable {E E' : List TmpEdge}

/-- Sorting by the start node changes neither of them. -/
theorem outgoing_sortBy (k : Int) : outgoing (sortBy TmpEdge.startNode E) k = outgoing E k :=
  filter_sortBy TmpEdge.startNode E k

theorem opposed_congr (h : ∀ e, e ∈ E' ↔ e ∈ E) {e : TmpEdge} : Opposed E' e ↔ Opposed E e := by
  simp only [Opposed, h]

theorem unanswered_sortBy (k : Int) : unanswered (sortBy TmpEdge.startNode E) k = unanswered E k := by
  have hopp : ∀ e, Opposed (sortBy TmpEdge.startNode E) e ↔ Opposed E e :=
    fun e => opposed_congr (fun e => mem_sortBy)
  simp only [unanswered, outgoing_sortBy, hopp]

/-- The adjacency map holds the edges of each start node. -/
structure Adjacence (E : List TmpEdge) (m : HashMap Int (List TmpEdge)) : Prop where
  nodup : m.keys.Nodup
  keys : ∀ k, k ∈ m.keys ↔ ∃ e ∈ E, e.startNode = k
  get : ∀ k, k ∈ m.keys → m.get k = .ok (outgoing E k)

theorem Adjacence.add {m : HashMap Int (List TmpEdge)} (h : Adjacence E m) {e : TmpEdge} {edgeList}
    {edgeIdx : Int} (he : rd edgeList edgeIdx = .ok e) :
    ∃ m', addAdjacence edgeList m edgeIdx = .ok m' ∧ Adjacence (E ++ [e]) m' := by
  -- the list of the start node, which is empty if the key is new
  obtain ⟨m₁, hm₁, hnodup, hkeys, hget⟩ : ∃ m₁, (if m.containsKey e.startNode then m
      else m.put e.startNode []) = m₁ ∧ m₁.keys.Nodup ∧
      (∀ k, k ∈ m₁.keys ↔ k = e.startNode ∨ k ∈ m.keys) ∧
      ∀ k, k ∈ m₁.keys → m₁.get k = .ok (outgoing E k) := by
    by_cases hc : m.containsKey e.startNode = true
    · refine ⟨m, if_pos hc, h.nodup, ?_, h.get⟩
      intro k
      have := HashMap.containsKey_iff.mp hc
      constructor
      · exact Or.inr
      · rintro (rfl | hk)
        · exact this
        · exact hk
    · refine ⟨m.put e.startNode [], if_neg hc, HashMap.nodup_keys_put h.nodup _ _,
        fun k => HashMap.mem_keys_put, ?_⟩
      intro k hk
      have hnot : e.startNode ∉ m.keys := fun hmem => hc (HashMap.containsKey_iff.mpr hmem)
      rw [HashMap.get_put]
      split_ifs with hke
      · have hnil : outgoing E k = [] := by
          rw [outgoing, List.filter_eq_nil_iff]
          intro e' he' hs
          rw [decide_eq_true_eq] at hs
          exact hnot ((h.keys e.startNode).mpr ⟨e', he', hs.trans hke⟩)
        rw [hnil]
      · rcases HashMap.mem_keys_put.mp hk with hk | hk
        · exact absurd hk hke
        · exact h.get k hk
  refine ⟨m₁.put e.startNode (outgoing E e.startNode ++ [e]), ?_,
    HashMap.nodup_keys_put hnodup _ _, ?_, ?_⟩
  · simp only [addAdjacence, he, ok_bind, hm₁, hget e.startNode ((hkeys _).mpr (Or.inl rfl)),
      pure_eq_ok]
  · intro k
    rw [HashMap.mem_keys_put, hkeys, h.keys]
    constructor
    · rintro (rfl | rfl | ⟨e', he', rfl⟩)
      · exact ⟨e, by simp, rfl⟩
      · exact ⟨e, by simp, rfl⟩
      · exact ⟨e', by simp [he'], rfl⟩
    · rintro ⟨e', he', rfl⟩
      rcases List.mem_append.mp he' with he' | he'
      · exact Or.inr (Or.inr ⟨e', he', rfl⟩)
      · rw [List.mem_singleton.mp he']
        exact Or.inl rfl
  · intro k hk
    rw [HashMap.get_put]
    split_ifs with hke
    · simp [outgoing, hke]
    · rcases HashMap.mem_keys_put.mp hk with hk | hk
      · exact absurd hk hke
      · rw [hget k hk]
        simp [outgoing, Ne.symm hke]

theorem adjacence_spec (E : List TmpEdge) :
    ∃ m, (indices 0 E.length).foldlM (addAdjacence E) [] = .ok m ∧ Adjacence E m := by
  obtain ⟨m, hrun, hm⟩ := foldlM_indices (f := addAdjacence E)
    (P := fun k m => Adjacence (E.take k) m) (Nat.zero_le E.length) (b := [])
    ⟨by simp [HashMap.keys], by simp [HashMap.keys], by simp [HashMap.keys]⟩ (by
      intro k m _ hk hm
      obtain ⟨m', hrun, hm'⟩ := hm.add (rd_of_getElem? (List.getElem?_eq_getElem hk))
      rw [← List.take_succ_eq_append_getElem hk] at hm'
      exact ⟨m', hrun, hm'⟩)
  rw [List.take_length] at hm
  exact ⟨m, hrun, hm⟩

/-- What is found in the list of the destination. -/
theorem any_isOpposite (E : List TmpEdge) (e : TmpEdge) :
    (outgoing E e.destNode).any (fun e' => IsOpposite e e') = decide (Opposed E e) := by
  rw [Bool.eq_iff_iff, List.any_eq_true, decide_eq_true_eq]
  constructor
  · rintro ⟨e', he', hopp⟩
    exact ⟨e', List.mem_of_mem_filter he', by simpa using hopp⟩
  · rintro ⟨e', he', hopp⟩
    refine ⟨e', List.mem_filter.mpr ⟨he', by simpa using hopp.1⟩, by simpa using hopp⟩

/-- Once an edge with a reverse was met, nothing more is added. -/
theorem checkEdges_found {m : HashMap Int (List TmpEdge)} (hm : Adjacence E m) (no : Int)
    (missing : List TmpEdge) (L : List TmpEdge) (hL : ∀ e ∈ L, e.destNode ∈ m.keys) :
    L.foldlM (checkEdge m) (true, no, missing) = .ok (true, no, missing) := by
  induction L with
  | nil => rfl
  | cons e L ih =>
    have hrun : checkEdge m (true, no, missing) e = .ok (true, no, missing) := by
      simp [checkEdge, hm.get _ (hL e List.mem_cons_self)]
    rw [List.foldlM_cons, hrun, ok_bind, ih (fun e' he' => hL e' (List.mem_cons_of_mem e he'))]

/-- The loop over the edges of one node adds the reverse edges up to the first
edge that has one. -/
theorem checkEdges_spec {m : HashMap Int (List TmpEdge)} (hm : Adjacence E m) :
    ∀ (L : List TmpEdge) (no : Int) (missing : List TmpEdge), (∀ e ∈ L, e.destNode ∈ m.keys) →
      ∃ found, L.foldlM (checkEdge m) (false, no, missing) = .ok (found,
        no + (L.takeWhile (fun e => ¬ Opposed E e)).length,
        missing ++ (L.takeWhile (fun e => ¬ Opposed E e)).map reverse) := by
  intro L
  induction L with
  | nil =>
    intro no missing _
    exact ⟨false, by simp⟩
  | cons e L ih =>
    intro no missing hL
    have hget := hm.get _ (hL e List.mem_cons_self)
    have hL' : ∀ e' ∈ L, e'.destNode ∈ m.keys := fun e' he' => hL e' (List.mem_cons_of_mem e he')
    rw [List.foldlM_cons]
    by_cases hopp : Opposed E e
    · have hrun : checkEdge m (false, no, missing) e = .ok (true, no, missing) := by
        simp only [checkEdge, hget, ok_bind, any_isOpposite, hopp, decide_true, Bool.or_true,
          if_true, pure_eq_ok]
      refine ⟨true, ?_⟩
      rw [hrun, ok_bind, checkEdges_found hm no missing L hL']
      simp [hopp]
    · have hrun : checkEdge m (false, no, missing) e
          = .ok (false, no + 1, missing ++ [reverse e]) := by
        simp only [checkEdge, hget, ok_bind, any_isOpposite, hopp, decide_false, Bool.or_self,
          Bool.false_eq_true, if_false, pure_eq_ok]
      obtain ⟨found, hrest⟩ := ih (no + 1) (missing ++ [reverse e]) hL'
      refine ⟨found, ?_⟩
      rw [hrun, ok_bind, hrest]
      simp only [hopp, not_false_eq_true, decide_true, List.takeWhile_cons_of_pos,
        List.length_cons, List.map_cons, Except.ok.injEq, Prod.mk.injEq, true_and]
      exact ⟨by push_cast; ring, by simp⟩

/-- The edges that are added, when the entries are visited in the order `ks`. -/
def added (E : List TmpEdge) (ks : List Int) : List TmpEdge :=
  (ks.flatMap (unanswered E)).map reverse

theorem checkEntries_spec {m : HashMap Int (List TmpEdge)} (hm : Adjacence E m)
    (hleaves : ∀ e ∈ E, e.destNode ∈ m.keys) :
    ∀ (ks : List Int) (no : Int) (missing : List TmpEdge), (∀ k ∈ ks, k ∈ m.keys) →
      ks.foldlM (checkEntry m) (no, missing)
        = .ok (no + (added E ks).length, missing ++ added E ks) := by
  intro ks
  induction ks with
  | nil =>
    intro no missing _
    simp [added]
  | cons k ks ih =>
    intro no missing hks
    obtain ⟨found, hrun⟩ := checkEdges_spec hm (outgoing E k) no missing
      (fun e he => hleaves e (List.mem_of_mem_filter he))
    have hentry : checkEntry m (no, missing) k = .ok (no + (unanswered E k).length,
        missing ++ (unanswered E k).map reverse) := by
      rw [checkEntry, hm.get k (hks k List.mem_cons_self), ok_bind, hrun, ok_bind]
      rfl
    rw [List.foldlM_cons, hentry, ok_bind,
      ih _ _ (fun k' hk' => hks k' (List.mem_cons_of_mem k hk'))]
    simp only [added, List.flatMap_cons, List.map_append, List.length_append, List.length_map,
      Except.ok.injEq, Prod.mk.injEq, List.append_assoc, and_true]
    push_cast
    ring

/-- An edge to a node without edges ends the completion. -/
theorem checkEntries_error {m : HashMap Int (List TmpEdge)} (hm : Adjacence E m)
    (hleaf : ∃ e ∈ E, e.destNode ∉ m.keys) (ks : List Int) (hks : ∀ k, k ∈ ks ↔ k ∈ m.keys)
    (state : Int × List TmpEdge) :
    ks.foldlM (checkEntry m) state = .error .nullPointer := by
  have hstep : ∀ (e : TmpEdge) (b : Completion),
      checkEdge m b e = .error .nullPointer ∨ ∃ b', checkEdge m b e = .ok b' := by
    rintro e ⟨found, no, missing⟩
    by_cases he : e.destNode ∈ m.keys
    · right
      simp only [checkEdge, hm.get _ he, ok_bind, pure_eq_ok]
      split_ifs
      · exact ⟨_, rfl⟩
      · exact ⟨_, rfl⟩
    · left
      simp [checkEdge, HashMap.get_of_not_mem he]
  apply foldlM_error
  · intro k hk b
    rw [checkEntry, hm.get k ((hks k).mp hk), ok_bind]
    by_cases hout : ∃ e ∈ outgoing E k, e.destNode ∉ m.keys
    · left
      obtain ⟨e, he, hbad⟩ := hout
      rw [foldlM_error _ _ (fun e' _ b => hstep e' b) ⟨e, he, fun b => by
        simp [checkEdge, HashMap.get_of_not_mem hbad]⟩, error_bind]
    · right
      push Not at hout
      obtain ⟨found, hrun⟩ := checkEdges_spec hm (outgoing E k) b.1 b.2 hout
      rw [show (false, b) = (false, b.1, b.2) from rfl, hrun, ok_bind]
      exact ⟨_, rfl⟩
  · obtain ⟨e, he, hbad⟩ := hleaf
    have hk : e.startNode ∈ m.keys := (hm.keys _).mpr ⟨e, he, rfl⟩
    refine ⟨e.startNode, (hks _).mpr hk, ?_⟩
    intro b
    have hout : e ∈ outgoing E e.startNode := List.mem_filter.mpr ⟨he, by simp⟩
    rw [checkEntry, hm.get _ hk, ok_bind,
      foldlM_error _ _ (fun e' _ b => hstep e' b) ⟨e, hout, fun b => by
        simp [checkEdge, HashMap.get_of_not_mem hbad]⟩, error_bind]

/-- Each destination has edges of its own. -/
def Answering (E : List TmpEdge) : Prop := ∀ e ∈ E, ∃ e' ∈ E, e'.startNode = e.destNode

instance (E : List TmpEdge) : Decidable (Answering E) :=
  inferInstanceAs (Decidable (∀ e ∈ E, ∃ e' ∈ E, e'.startNode = e.destNode))

/-- Each start of an edge, in some order. -/
structure Starts (E : List TmpEdge) (ks : List Int) : Prop where
  nodup : ks.Nodup
  mem_iff : ∀ k, k ∈ ks ↔ ∃ e ∈ E, e.startNode = k

variable {entryOrder : List Int → List Int} {r : Records δ}

theorem completeEdges_spec (horder : ∀ ks, (entryOrder ks).Perm ks)
    (hno : r.noEdges = r.edgeList.length) (hans : Answering r.edgeList) :
    ∃ ks, Starts r.edgeList ks ∧ completeEdges entryOrder r = .ok { r with
      noEdges := ((r.edgeList ++ added r.edgeList ks).length : Nat)
      edgeList := sortBy TmpEdge.startNode (r.edgeList ++ added r.edgeList ks) } := by
  obtain ⟨m, hrun, hm⟩ := adjacence_spec r.edgeList
  have hkeys : ∀ k, k ∈ entryOrder m.keys ↔ k ∈ m.keys := fun k => (horder m.keys).mem_iff
  refine ⟨entryOrder m.keys, ⟨(horder m.keys).nodup_iff.mpr hm.nodup,
    fun k => (hkeys k).trans (hm.keys k)⟩, ?_⟩
  have hcheck := checkEntries_spec hm (fun e he => (hm.keys _).mpr (hans e he))
    (entryOrder m.keys) r.edgeList.length [] (fun k hk => (hkeys k).mp hk)
  simp only [completeEdges, hno, hrun, ok_bind, hcheck, pure_eq_ok, List.nil_append,
    List.length_append, Nat.cast_add]

theorem completeEdges_error (horder : ∀ ks, (entryOrder ks).Perm ks)
    (hno : r.noEdges = r.edgeList.length) (hans : ¬ Answering r.edgeList) :
    completeEdges entryOrder r = .error .nullPointer := by
  obtain ⟨m, hrun, hm⟩ := adjacence_spec r.edgeList
  have hleaf : ∃ e ∈ r.edgeList, e.destNode ∉ m.keys := by
    unfold Answering at hans
    push Not at hans
    obtain ⟨e, he, hno⟩ := hans
    refine ⟨e, he, ?_⟩
    intro hmem
    obtain ⟨e', he', hs⟩ := (hm.keys _).mp hmem
    exact hno e' he' hs
  have hcheck := checkEntries_error hm hleaf (entryOrder m.keys)
    (fun k => (horder m.keys).mem_iff) ((r.edgeList.length : Int), [])
  simp only [completeEdges, hno, hrun, ok_bind, hcheck, error_bind]

theorem added_sortBy (ks : List Int) : added (sortBy TmpEdge.startNode E) ks = added E ks := by
  have hfun : unanswered (sortBy TmpEdge.startNode E) = unanswered E :=
    funext (fun k => unanswered_sortBy k)
  rw [added, added, hfun]

theorem answering_sortBy : Answering (sortBy TmpEdge.startNode E) ↔ Answering E := by
  simp only [Answering, mem_sortBy]

theorem readFmi_spec {text : List Char} (h : Describes parseDouble text nodes edges)
    (horder : ∀ ks, (entryOrder ks).Perm ks) (hans : Answering (fileEdges nodes edges)) :
    ∃ ks, Starts (fileEdges nodes edges) ks ∧ readFmi parseDouble entryOrder text = .ok
      ⟨nodes.length, ((fileEdges nodes edges ++ added (fileEdges nodes edges) ks).length : Nat),
        nodes, sortBy TmpEdge.startNode (sortBy TmpEdge.startNode (fileEdges nodes edges)
          ++ added (fileEdges nodes edges) ks)⟩ := by
  obtain ⟨ks, hks, hrun⟩ := completeEdges_spec (r := ⟨nodes.length, edges.length, nodes,
    sortBy TmpEdge.startNode (fileEdges nodes edges)⟩) horder
    (by rw [length_sortBy, fileEdges, List.length_map]) (answering_sortBy.mpr hans)
  refine ⟨ks, ⟨hks.nodup, ?_⟩, ?_⟩
  · intro k
    rw [hks.mem_iff]
    simp only [mem_sortBy]
  · rw [readFmi, readRecords_spec h, ok_bind, hrun, added_sortBy]
    simp only [List.length_append, length_sortBy]

theorem readFmi_error {text : List Char} (h : Describes parseDouble text nodes edges)
    (horder : ∀ ks, (entryOrder ks).Perm ks) (hans : ¬ Answering (fileEdges nodes edges)) :
    readFmi parseDouble entryOrder text = .error .nullPointer := by
  rw [readFmi, readRecords_spec h, ok_bind]
  apply completeEdges_error horder
  · rw [length_sortBy, fileEdges, List.length_map]
  · rw [answering_sortBy]
    exact hans

/-! ## What every text that is read gives -/

/-- The counts and the numbers of the nodes fit the lists, and the edges are
sorted. -/
structure Imported (r : Records δ) : Prop where
  nodes : r.nodeList.length = r.noNodes.toNat
  edges : r.edgeList.length = r.noEdges.toNat
  node : ∀ e ∈ r.edgeList, (0 ≤ e.startNode ∧ e.startNode < r.noNodes) ∧
    0 ≤ e.destNode ∧ e.destNode < r.noNodes
  sorted : r.edgeList.Pairwise (fun e e' => e.startNode ≤ e'.startNode)

/-- Only numbers of nodes are put into the map. -/
theorem readNodes_inv {ns : List Int} {state : NodeReader δ} {br : List (List Char)}
    (h : ns.foldlM (readNode parseDouble) (br, [], []) = .ok state) :
    state.2.1.length = ns.length ∧ ∀ k v, state.2.2.get k = .ok v → v ∈ ns := by
  refine foldlM_inv (P := fun pre state => state.2.1.length = pre.length ∧
    ∀ k v, state.2.2.get k = .ok v → v ∈ pre) ns _ _ ⟨rfl, ?_⟩ h ?_
  · intro k v hget
    exact absurd hget (by simp [HashMap.get])
  · rintro pre x post ⟨br, nl, m⟩ state' _ ⟨hlen, hm⟩ hrun
    simp only [readNode, bind_eq_ok] at hrun
    obtain ⟨⟨line, br'⟩, _, node, _, hrun⟩ := hrun
    obtain rfl := Except.ok.inj hrun
    refine ⟨by simpa using hlen, ?_⟩
    intro k v hget
    rw [HashMap.get_put] at hget
    split_ifs at hget with hk
    · exact List.mem_append_right pre (by rw [Except.ok.inj hget]; exact List.mem_singleton_self v)
    · exact List.mem_append_left _ (hm k v hget)

theorem parseEdge_inv {m : HashMap Int Int} {line : List Char} {e : TmpEdge}
    (h : parseEdge m line = .ok e) :
    ∃ a b, m.get a = .ok e.startNode ∧ m.get b = .ok e.destNode := by
  simp only [parseEdge, bind_eq_ok] at h
  obtain ⟨_, _, a, _, u, hu, _, _, b, _, v, hv, _, _, d, _, he⟩ := h
  obtain rfl := Except.ok.inj he
  exact ⟨a, b, hu, hv⟩

theorem readEdges_inv {m : HashMap Int Int} {ns : List Int} {state : List (List Char) × List TmpEdge}
    {br : List (List Char)} (h : ns.foldlM (readEdge m) (br, []) = .ok state) :
    state.2.length = ns.length ∧
      ∀ e ∈ state.2, ∃ a b, m.get a = .ok e.startNode ∧ m.get b = .ok e.destNode := by
  refine foldlM_inv (P := fun pre state => state.2.length = pre.length ∧
    ∀ e ∈ state.2, ∃ a b, m.get a = .ok e.startNode ∧ m.get b = .ok e.destNode) ns _ _
    ⟨rfl, ?_⟩ h ?_
  · intro e he
    exact absurd he List.not_mem_nil
  · rintro pre x post ⟨br, el⟩ state' _ ⟨hlen, hm⟩ hrun
    simp only [readEdge, bind_eq_ok] at hrun
    obtain ⟨⟨line, br'⟩, _, edge, hedge, hrun⟩ := hrun
    obtain rfl := Except.ok.inj hrun
    refine ⟨by simpa using hlen, ?_⟩
    intro e he
    rcases List.mem_append.mp he with he | he
    · exact hm e he
    · rw [List.mem_singleton.mp he]
      exact parseEdge_inv hedge

theorem readRecords_imported {text : List Char} (h : readRecords parseDouble text = .ok r) :
    Imported r := by
  simp only [readRecords, bind_eq_ok] at h
  obtain ⟨⟨_, _⟩, _, noNodes, _, ⟨_, br⟩, _, noEdges, _, ⟨_, nl, m⟩, hnodes, ⟨_, el⟩, hedges, hr⟩ := h
  obtain rfl := Except.ok.inj hr
  obtain ⟨hnl, hm⟩ := readNodes_inv hnodes
  obtain ⟨hel, he⟩ := readEdges_inv hedges
  have hnode : ∀ k v, m.get k = .ok v → 0 ≤ v ∧ v < noNodes :=
    fun k v hv => mem_indices.mp (hm k v hv)
  refine ⟨?_, ?_, ?_, sortBy_sorted TmpEdge.startNode el⟩
  · rw [length_sortBy, ← length_indices_zero]
    exact hnl
  · rw [length_sortBy, ← length_indices_zero]
    exact hel
  · intro e hmem
    obtain ⟨a, b, ha, hb⟩ := he e (mem_sortBy.mp hmem)
    exact ⟨hnode a _ ha, hnode b _ hb⟩

/-- The added edges are reverses of edges. -/
theorem exists_of_mem_added {ks : List Int} {a : TmpEdge} (h : a ∈ added E ks) :
    ∃ e ∈ E, ¬ Opposed E e ∧ a = reverse e := by
  obtain ⟨e, he, rfl⟩ := List.mem_map.mp h
  obtain ⟨k, _, he⟩ := List.mem_flatMap.mp he
  have hnot := List.all_eq_true.mp List.all_takeWhile e he
  exact ⟨e, List.mem_of_mem_filter ((List.takeWhile_sublist _).subset he), by simpa using hnot, rfl⟩

theorem Imported.completeEdges (h : Imported r) (horder : ∀ ks, (entryOrder ks).Perm ks)
    {r' : Records δ} (hrun : completeEdges entryOrder r = .ok r') :
    Imported r' ∧ r'.noNodes = r.noNodes ∧ r'.nodeList = r.nodeList := by
  by_cases hneg : r.noEdges < 0
  · -- a negative count: there is no edge
    have hnil : r.edgeList = [] := List.eq_nil_of_length_eq_zero (by rw [h.edges]; omega)
    have hind : indices 0 r.noEdges = [] := indices_eq_nil (le_of_lt hneg)
    have hkeys : entryOrder (HashMap.keys ([] : HashMap Int (List TmpEdge))) = [] :=
      (horder []).eq_nil
    have hself : FmiFile.completeEdges entryOrder r = .ok r := by
      simp only [FmiFile.completeEdges, hind, List.foldlM_nil, pure_eq_ok, ok_bind, hkeys, hnil,
        List.append_nil, Except.ok.injEq]
      cases r
      simp only [Records.mk.injEq, true_and]
      simp only at hnil
      rw [hnil]
      rfl
    rw [hself, Except.ok.injEq] at hrun
    rw [← hrun]
    exact ⟨h, rfl, rfl⟩
  · have hno : r.noEdges = r.edgeList.length := by
      have := h.edges
      omega
    by_cases hans : Answering r.edgeList
    · obtain ⟨ks, _, hspec⟩ := completeEdges_spec horder hno hans
      rw [hspec, Except.ok.injEq] at hrun
      rw [← hrun]
      refine ⟨⟨h.nodes, ?_, ?_, sortBy_sorted _ _⟩, rfl, rfl⟩
      · rw [length_sortBy, Int.toNat_natCast]
      · intro e he
        rcases List.mem_append.mp (mem_sortBy.mp he) with he | he
        · exact h.node e he
        · obtain ⟨e', he', _, rfl⟩ := exists_of_mem_added he
          exact (h.node e' he').symm
    · rw [completeEdges_error horder hno hans] at hrun
      exact absurd hrun (by simp)

theorem readFmi_imported (horder : ∀ ks, (entryOrder ks).Perm ks) {text : List Char}
    (h : readFmi parseDouble entryOrder text = .ok r) : Imported r := by
  rw [readFmi, bind_eq_ok] at h
  obtain ⟨r₀, hread, hrun⟩ := h
  exact ((readRecords_imported hread).completeEdges horder hrun).1

/-- The number of nodes is an int. -/
theorem readFmi_noNodes {text : List Char} (horder : ∀ ks, (entryOrder ks).Perm ks)
    (h : readFmi parseDouble entryOrder text = .ok r) : IsInt r.noNodes := by
  rw [readFmi, bind_eq_ok] at h
  obtain ⟨r₀, hread, hrun⟩ := h
  rw [((readRecords_imported hread).completeEdges horder hrun).2.1]
  simp only [readRecords, bind_eq_ok] at hread
  obtain ⟨⟨_, _⟩, _, noNodes, hno, ⟨_, _⟩, _, _, _, ⟨_, _, _⟩, _, ⟨_, _⟩, _, hr⟩ := hread
  rw [← Except.ok.inj hr]
  exact isInt_of_parseInt hno

end FmiFile

end SeaRouter
