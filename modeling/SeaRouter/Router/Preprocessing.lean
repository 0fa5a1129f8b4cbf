import SeaRouter.HubLabelCreation.DynamicGridFile
import SeaRouter.Router.HubLData

/-!
# `LabelCreator.main`

The whole preprocessing, from the text of a file to the data of the router, for a run
that finds no data of an earlier one.  The contraction order is shuffled with a random
generator; `shuffle_spec` says what any sequence of random numbers makes of it.  `step1` to
`step3` are the parts between which `main` stores its data, and the coordinates that the
router gets are those of the nodes that were imported.

* `graphOf_undirected`: what a file has to list so that the contraction works on its
  graph.
* `main_spec`: what `main` leaves for a file in which no edge is longer than another way
  between its ends.
-/

namespace SeaRouter

open Java WGraph BinHeap

namespace LabelCreator

def NUM_OF_NO_LABEL_LVLS : Nat := 0

/-! ## The contraction order -/

/-- `rnd.nextInt(bound)`, where `draw` is what the generator has next. -/
def nextInt (draw : Nat) (bound : Int) : Run Int :=
  if bound ≤ 0 then .error .illegalArgument else return draw % bound

/-- One iteration of the loop that shuffles the nodes. -/
def shuffleStep (rnd : Nat → Nat) (nodeCount : Nat) (calcOrder : List Int) (i : Int) :
    Run (List Int) := do
  let index ← nextInt (rnd i.toNat) (nodeCount - 1)
  -- simple swap
  let tmp ← rd calcOrder index
  let calcOrder ← wr calcOrder index (← rd calcOrder i)
  wr calcOrder i tmp

/-- The first part of `calculateCH()`, shuffle somewhat randomly, no perfection
required: `rnd i` is what the generator has in the iteration `i`. -/
def shuffle (rnd : Nat → Nat) (nodeCount : Nat) : Run (List Int) :=
  (indices 0 nodeCount).foldlM (shuffleStep rnd nodeCount) (indices 0 nodeCount)

variable {n : Nat} {rnd : Nat → Nat}

theorem shuffleStep_spec {order : List Int} (hn : 1 < n) (hlen : order.length = n) {i : Int}
    (h0 : 0 ≤ i) (h1 : i < n) :
    ∃ order', shuffleStep rnd n order i = .ok order' ∧ order'.Perm order := by
  have hbound : ¬ ((n : Int) - 1 ≤ 0) := by omega
  have hlo := Int.emod_nonneg (rnd i.toNat : Int) (show (n : Int) - 1 ≠ 0 by omega)
  have hhi := Int.emod_lt_of_pos (rnd i.toNat : Int) (show 0 < (n : Int) - 1 by omega)
  obtain ⟨k, rfl⟩ : ∃ k : Nat, i = k := ⟨i.toNat, by omega⟩
  obtain ⟨j, hj⟩ : ∃ j : Nat, (rnd k : Int) % ((n : Int) - 1) = j :=
    ⟨((rnd k : Int) % ((n : Int) - 1)).toNat, by
      rw [Int.toNat_natCast] at hlo
      omega⟩
  rw [Int.toNat_natCast, hj] at hhi
  have hjn : j < order.length := by omega
  have hkn : k < order.length := by omega
  have hrd : ∀ m : Nat, m < order.length → rd order m = .ok (idAt order m) := by
    intro m hm
    exact rd_of_getElem? (by rw [idAt_eq_getElem hm, List.getElem?_eq_getElem hm])
  refine ⟨swapAt order j k, ?_, swapAt_perm hjn hkn⟩
  rw [shuffleStep, nextInt, if_neg hbound, Int.toNat_natCast, hj]
  simp only [pure_eq_ok, ok_bind, hrd j hjn, hrd k hkn]
  rw [wr_of_bounds _ (by omega) (by omega), ok_bind,
    wr_of_bounds _ (by omega) (by rw [List.length_set]; omega)]
  rfl

/-- Whatever the random numbers are, the order is one of the nodes; but for a single
node there is no random number. -/
theorem shuffle_spec (rnd : Nat → Nat) (n : Nat) :
    if n = 1 then shuffle rnd n = .error .illegalArgument
    else ∃ order, shuffle rnd n = .ok order ∧ order.Perm (indices 0 n) := by
  split_ifs with hn
  · subst hn
    rfl
  · have hlen : (indices 0 n).length = n := by
      rw [indices, List.length_map, List.length_range]
      omega
    have hstep := foldlM_spec (f := shuffleStep rnd n)
      (P := fun (_ : List Int) (order : List Int) => order.Perm (indices 0 n)) (indices 0 n)
      (indices 0 n) (List.Perm.refl _) (by
        intro pre i post order hsplit hperm
        obtain ⟨h0, h1⟩ := mem_indices.mp (show i ∈ indices 0 n by rw [hsplit]; simp)
        have hn1 : 1 < n := by omega
        have hlen' : order.length = n := by rw [hperm.length_eq, hlen]
        obtain ⟨order', hrun, hperm'⟩ := shuffleStep_spec hn1 hlen' h0 h1
        exact ⟨order', hrun, hperm'.trans hperm⟩)
    obtain ⟨order, hrun, hperm⟩ := hstep
    exact ⟨order, hrun, hperm⟩

end LabelCreator

/-! ## The graph of a file -/

/-- Counting the indices of a list by what stands there. -/
theorem countP_indices {α : Type} (l : List α) (p : α → Bool) :
    (indices 0 l.length).countP (fun i => (l[i.toNat]?).any p) = l.countP p := by
  induction l using List.reverseRecOn with
  | nil => rfl
  | append_singleton l x ih =>
    rw [List.length_append, List.length_singleton, indices_zero_succ, List.countP_append,
      List.countP_append, ← ih]
    congr 1
    · apply List.countP_congr
      intro i hi
      have := mem_indices.mp hi
      rw [List.getElem?_append_left (by omega)]
    · simp [List.countP_cons]

namespace DynamicGrid

open FmiFile

variable {δ : Type} {r : Records δ}

/-- Each edge has one of its own length back. -/
def Mirrored (E : List TmpEdge) : Prop := (E.map reverse).Perm E

instance (E : List TmpEdge) : Decidable (Mirrored E) :=
  inferInstanceAs (Decidable ((E.map reverse).Perm E))

/-- As many edges of each length lead from `u` to `v` as back. -/
theorem Mirrored.countP_swap {E : List TmpEdge} (h : Mirrored E) (u v d : Int) :
    E.countP (fun e => e = ⟨u, v, d⟩) = E.countP fun e => e = ⟨v, u, d⟩ := by
  rw [← List.Perm.countP_eq _ h, List.countP_map]
  apply List.countP_congr
  intro e _
  obtain ⟨a, b, c⟩ := e
  simp only [Function.comp_apply, reverse, decide_eq_true_eq, TmpEdge.mk.injEq]
  tauto

/-- An edge of the file, by its id. -/
theorem graphOf_edge {i : Nat} {e : TmpEdge} (he : r.edgeList[i]? = some e) :
    (graphOf r).edges.startOf i = e.startNode ∧ (graphOf r).edges.destOf i = e.destNode ∧
      (graphOf r).edges.distOf i = e.dist := by
  have hi := (List.getElem?_eq_some_iff.mp he).1
  have hlt : (i : Int) < (graphOf r).edges.numOfOriginalEdges := by
    show (i : Int) < ((r.edgeList.map TmpEdge.destNode).length : Nat)
    rw [List.length_map]
    omega
  have hget : ∀ f : TmpEdge → Int, rd (r.edgeList.map f) (i : Int) = .ok (f e) := by
    intro f
    apply rd_of_getElem?
    rw [List.getElem?_map, he]
    rfl
  refine ⟨?_, ?_, ?_⟩
  · rw [Edges.startOf, Edges.getStart, if_pos hlt]
    exact congrArg Edges.valueOf (hget TmpEdge.startNode)
  · rw [Edges.destOf, Edges.getDest, if_pos hlt]
    exact congrArg Edges.valueOf (hget TmpEdge.destNode)
  · rw [Edges.distOf, Edges.getDist, if_pos hlt]
    exact congrArg Edges.valueOf (hget TmpEdge.dist)

theorem graphOf_lists (r : Records δ) :
    Lists r.nodeList.length (fun _ => True) (graphOf r).rows (graphOf r).counts
      (idsOf (r.edgeList.map TmpEdge.startNode)) := by
  refine ⟨by simp [graphOf, tables], by simp [graphOf, tables], ?_⟩
  intro u h0 h1
  obtain ⟨w, rfl⟩ : ∃ w : Nat, u = w := ⟨u.toNat, by omega⟩
  refine ⟨_, rd_tabulate _ (by omega), rd_tabulate _ (by omega), ?_⟩
  intro _ hnil
  have hlen := congrArg List.length hnil
  rw [List.length_append, List.length_replicate, List.length_nil] at hlen
  omega

/-- The ids that a node lists are those of the edges that start in it. -/
theorem mem_idsOf {starts : List Int} {u e : Int} :
    e ∈ idsOf starts u ↔ (0 ≤ e ∧ e < starts.length) ∧ starts[e.toNat]? = some u := by
  rw [idsOf, List.mem_filter, mem_indices, decide_eq_true_iff]

theorem graphOf_current (himp : Imported r) (u : Int) :
    (graphOf r).grid.current u = idsOf (r.edgeList.map TmpEdge.startNode) u := by
  by_cases hu : 0 ≤ u ∧ u < r.nodeList.length
  · exact (graphOf_lists r).listOf_eq hu.1 hu.2
  · have hnil : idsOf (r.edgeList.map TmpEdge.startNode) u = [] := by
      rw [List.eq_nil_iff_forall_not_mem]
      intro e he
      obtain ⟨_, hget⟩ := mem_idsOf.mp he
      rw [List.getElem?_map, Option.map_eq_some_iff] at hget
      obtain ⟨te, hte, rfl⟩ := hget
      have hnode := (himp.node te (List.mem_of_getElem? hte)).1
      have hnodes := himp.nodes
      omega
    rw [hnil]
    exact (graphOf_lists r).listOf_outside hu

/-- The edges from `u` to `w` of the length `d`. -/
theorem graphOf_countTo (himp : Imported r) (u w d : Int) :
    LabelCreator.countTo (graphOf r).edges ((graphOf r).grid.current u) w d =
      r.edgeList.countP fun e => e = ⟨u, w, d⟩ := by
  rw [graphOf_current himp, LabelCreator.countTo, idsOf, List.countP_filter, List.length_map,
    ← countP_indices r.edgeList]
  apply List.countP_congr
  intro i hi
  obtain ⟨h0, h1⟩ := mem_indices.mp hi
  obtain ⟨k, rfl⟩ : ∃ k : Nat, i = k := ⟨i.toNat, by omega⟩
  have hget := List.getElem?_eq_getElem (show k < r.edgeList.length by omega)
  obtain ⟨_, hdest, hdist⟩ := graphOf_edge hget
  rw [Int.toNat_natCast, List.getElem?_map, hget, hdest, hdist]
  generalize r.edgeList[k] = te
  obtain ⟨a, b, c⟩ := te
  simp only [Option.map_some, Option.some.injEq, Option.any_some, Bool.and_eq_true,
    decide_eq_true_eq, TmpEdge.mk.injEq]
  tauto

/-- A file without loops and with each edge in both directions has an undirected
graph. -/
theorem graphOf_undirected (himp : Imported r) (hsmall : IsInt r.noNodes)
    (hmirror : Mirrored r.edgeList) (hloop : ∀ e ∈ r.edgeList, e.startNode ≠ e.destNode) :
    (graphOf r).Undirected r.nodeList.length := by
  have hnodes := himp.nodes
  have hid : ∀ e : Int, 0 ≤ e → e < (graphOf r).dest.length → ∃ te, te ∈ r.edgeList ∧
      r.edgeList[e.toNat]? = some te ∧ (graphOf r).edges.startOf e = te.startNode ∧
      (graphOf r).edges.destOf e = te.destNode := by
    intro e h0 h1
    obtain ⟨k, rfl⟩ : ∃ k : Nat, e = k := ⟨e.toNat, by omega⟩
    have hk : k < r.edgeList.length := by
      have hlen : (graphOf r).dest.length = r.edgeList.length := List.length_map ..
      omega
    have hget := List.getElem?_eq_getElem hk
    obtain ⟨hstart, hdest, _⟩ := graphOf_edge hget
    exact ⟨_, List.getElem_mem hk, hget, hstart, hdest⟩
  refine ⟨?_, by simp [graphOf], by simp [graphOf], ?_, ?_, ?_, ?_⟩
  · have hmax : r.noNodes ≤ MAX_VALUE := hsmall.2
    have h0 : (0 : Int) ≤ MAX_VALUE := by decide
    omega
  · exact (graphOf_lists r).congr (fun _ _ => trivial) fun u _ _ => graphOf_current himp u
  · intro u e
    rw [graphOf_current himp, mem_idsOf]
    have hlen : (r.edgeList.map TmpEdge.startNode).length = (graphOf r).dest.length := by
      simp [graphOf]
    rw [hlen, and_assoc]
    constructor
    · intro hmem
      obtain ⟨h0, h1, hget⟩ := hmem
      obtain ⟨te, _, hte, hstart, _⟩ := hid e h0 h1
      rw [List.getElem?_map, hte, Option.map_some, Option.some.injEq] at hget
      exact ⟨h0, h1, hstart.trans hget⟩
    · intro hmem
      obtain ⟨h0, h1, hu⟩ := hmem
      obtain ⟨te, _, hte, hstart, _⟩ := hid e h0 h1
      refine ⟨h0, h1, ?_⟩
      rw [List.getElem?_map, hte, Option.map_some, ← hstart, hu]
  · intro e h0 h1
    obtain ⟨te, hmem, _, hstart, hdest⟩ := hid e h0 h1
    have hnode := (himp.node te hmem).2
    rw [hstart, hdest]
    exact ⟨hnode.1, by omega, Ne.symm (hloop te hmem)⟩
  · intro u w d
    rw [graphOf_countTo himp, graphOf_countTo himp]
    exact hmirror.countP_swap u w d

end DynamicGrid

/-! ## The whole program -/

namespace LabelCreator

open HubLRouter HubLNodes FmiFile

variable {δ : Type} {parseDouble : List Char → Run δ} {entryOrder : List Int → List Int}

/-- The data of the class `CHData`: that of `Nodes`, `Edges` and `DynamicGrid` after the
contraction. -/
structure CHData (δ : Type) where
  nodes : Node δ
  levels : List Int
  edges : Edges
  grid : DynamicGrid

/-- `Nodes.getNodeCount()`. -/
def CHData.nodeCount (data : CHData δ) : Nat := data.nodes.latitude.length

/-- Step 1 of `main`: the import and `calculateCH()`. -/
def step1 (parseDouble : List Char → Run δ) (entryOrder : List Int → List Int) (rnd : Nat → Nat)
    (text : List Char) : Run (CHData δ) := do
  let (nodes, I) ← DynamicGrid.importFmiFile parseDouble entryOrder text
  let nodeCount := nodes.latitude.length
  let calcOrder ← shuffle rnd nodeCount
  let s ← calculateCH I.edges I.grid nodeCount calcOrder
  return { nodes := nodes, levels := s.levels, edges := s.edges, grid := s.grid }

/-- Step 2: the labels. -/
def step2 (data : CHData δ) : Run Labels :=
  calcLabels NUM_OF_THREADS NUM_OF_NO_LABEL_LVLS data.edges data.grid data.levels data.nodeCount
    (Labels.new data.nodeCount)

/-- Step 3: the data for the router. -/
def step3 (data : CHData δ) (L : Labels) : Run (HubLEdges × HubLNodes) :=
  serializeHubLData NUM_OF_NO_LABEL_LVLS data.levels data.edges data.grid L

/-- `main(args)`, when no data of an earlier run is read. -/
def main (parseDouble : List Char → Run δ) (entryOrder : List Int → List Int) (rnd : Nat → Nat)
    (text : List Char) : Run (Node δ × HubLEdges × HubLNodes) := do
  let data ← step1 parseDouble entryOrder rnd text
  let L ← step2 data
  let (H, N) ← step3 data L
  return (data.nodes, H, N)

/-- The data of the hub label router for the graph `g`, with labels for all nodes. -/
structure DataOf (g : Grid) (H : HubLEdges) (N : HubLNodes) : Prop where
  route : ∃ ups ent, RouteData g.HasEdge g.nodeCount H N ups ent
  labelled : ∀ v : Int, (0 ≤ v ∧ v < g.nodeCount) → Labelled N v
  ids : NodeIds H N

/-- What the graph of a file needs so that the hub labels are right: each edge in both
directions, no more than four at a node, no loops, and no edge that is longer than
another way between its ends. -/
structure Routable (g : Grid) : Prop where
  notSingle : g.nodeCount ≠ 1
  fourEach : DynamicGrid.FourEach g.edges
  mirrored : DynamicGrid.Mirrored g.edges
  noLoop : ∀ e ∈ g.edges, e.startNode ≠ e.destNode
  positive : ∀ e ∈ g.edges, 0 < e.dist
  metric : ∀ u v l, g.HasEdge u v l → IsDist g.HasEdge u v l

/-- The edges and shortcuts that step 1 leaves have lengths with a sum below `MAX_VALUE`, so
no sum of lengths overflows (see `SumsFit`). -/
def LengthsFit (parseDouble : List Char → Run δ) (entryOrder : List Int → List Int)
    (rnd : Nat → Nat) (text : List Char) : Prop :=
  ∀ data, step1 parseDouble entryOrder rnd text = .ok data → data.edges.totalDist < MAX_VALUE

/-- A run shows that the lengths fit. -/
theorem lengthsFit_of_run {rnd : Nat → Nat} {text : List Char}
    (h : (step1 parseDouble entryOrder rnd text).toOption.map
      (fun data => decide (data.edges.totalDist < MAX_VALUE)) = some true) :
    LengthsFit parseDouble entryOrder rnd text := by
  obtain ⟨data, hrun, hcheck⟩ := exists_of_map_toOption h
  intro data' hrun'
  obtain rfl : data = data' := Except.ok.inj (hrun.symm.trans hrun')
  exact of_decide_eq_true hcheck

/-- `main` runs through on such a file, whatever the random numbers are, and leaves the
data of its graph. -/
theorem main_spec (horder : ∀ ks, (entryOrder ks).Perm ks) {text : List Char} {nodes : Node δ}
    {g : Grid} (hg : Grid.importFmiFile parseDouble entryOrder text = .ok (nodes, g))
    (h : Routable g) (rnd : Nat → Nat) (hfit : LengthsFit parseDouble entryOrder rnd text) :
    g.dist.sum < MAX_VALUE ∧
      ∃ H N, main parseDouble entryOrder rnd text = .ok (nodes, H, N) ∧ DataOf g H N := by
  obtain ⟨hone, hfour, hmirror, hloop, hpos, hmetric⟩ := h
  obtain ⟨r, hread, himp, hn, he, rfl, rfl⟩ := Grid.importFmiFile_inv horder hg
  rw [Grid.edges_gridOf] at hfour hmirror hloop hpos
  have himport : DynamicGrid.importFmiFile parseDouble entryOrder text =
      .ok (Grid.nodesOf r, DynamicGrid.graphOf r) := by
    rw [DynamicGrid.importFmiFile, hread, ok_bind]
    exact (DynamicGrid.fill_spec himp hn he).1 hfour
  have hI := DynamicGrid.graphOf_undirected himp (readFmi_noNodes horder hread) hmirror hloop
  have hposI : (DynamicGrid.graphOf r).Positive := by
    intro l hl
    obtain ⟨e, hmem, rfl⟩ := List.mem_map.mp hl
    exact hpos e hmem
  have hsame : ∀ u v l, (Grid.gridOf r).HasEdge u v l ↔ (DynamicGrid.graphOf r).Adj u v l :=
    hasEdge_dijkstraGrid hI
  have hE : (Grid.gridOf r).HasEdge = (DynamicGrid.graphOf r).Adj := by
    funext u v l
    exact propext (hsame u v l)
  have hlen : (Grid.nodesOf r).latitude.length = (Grid.gridOf r).nodeCount := List.length_map ..
  have hshuffle := shuffle_spec rnd (Grid.gridOf r).nodeCount
  rw [if_neg hone] at hshuffle
  obtain ⟨calcOrder, hcalc, hperm⟩ := hshuffle
  have hnodes : ∀ u : Int, u ∈ calcOrder ↔ 0 ≤ u ∧ u < (Grid.gridOf r).nodeCount := by
    intro u
    rw [hperm.mem_iff, mem_indices]
  obtain ⟨s, top, hch, hf⟩ := calculateCH_finished hI hposI hnodes
  obtain ⟨_, _, L, _, _, hseq, _⟩ := hf.calcLabels_done 0
  have hrun := hseq NUM_OF_THREADS (by decide)
  have hch' : calculateCH (DynamicGrid.graphOf r).edges (DynamicGrid.graphOf r).grid
      (Grid.gridOf r).nodeCount calcOrder = .ok s := hch
  have hstep1 : step1 parseDouble entryOrder rnd text =
      .ok ⟨Grid.nodesOf r, s.levels, s.edges, s.grid⟩ := by
    simp only [step1, himport, ok_bind, hlen, hcalc, hch', pure_eq_ok]
  have hstep2 : step2 ⟨Grid.nodesOf r, s.levels, s.edges, s.grid⟩ = .ok L := by
    rw [step2, CHData.nodeCount, hlen]
    exact hrun
  have htotal : s.edges.totalDist < MAX_VALUE :=
    hfit ⟨Grid.nodesOf r, s.levels, s.edges, s.grid⟩ hstep1
  have hint := hf.holdsInts htotal (by decide) hrun
  have hbound := hf.isDist_lt htotal
  have hmetricI : Metric (DynamicGrid.graphOf r) := by
    intro u v l hadj
    rw [← hE]
    exact hmetric u v l ((hsame u v l).mpr hadj)
  have hlaunch : ∀ u : Int, (0 ≤ u ∧ u < (Grid.gridOf r).nodeCount) →
      ((0 : Nat) : Int) ≤ LabelCreator.levelOf s u →
      HLDijkstra.Launches (DynamicGrid.graphOf r).Adj s.edges s.grid s.levels u :=
    fun u _ hu => (hmetricI.direct s _).launches hf hu
  have hfair := hf.fairLabels (by decide) hrun hint
  obtain ⟨H, N, hser, hstore⟩ := serializeHubLData_spec hf.gridState hfair.state (0 : Nat)
  have hdata := hf.routeData (by decide) hlaunch hrun hint hstore hbound
  rw [← hE] at hdata
  have hsum : (Grid.gridOf r).dist.sum < MAX_VALUE := lt_of_le_of_lt hf.sum_le_totalDist htotal
  have hstep3 : step3 ⟨Grid.nodesOf r, s.levels, s.edges, s.grid⟩ L = .ok (H, N) := hser
  have hmain : main parseDouble entryOrder rnd text = .ok (Grid.nodesOf r, H, N) := by
    rw [main, hstep1, ok_bind, hstep2, ok_bind, hstep3]
    rfl
  have hlab : ∀ v : Int, (0 ≤ v ∧ v < (Grid.gridOf r).nodeCount) → Labelled N v := by
    intro v hv
    exact (labelled_iff hstore v).2.mpr (hf.level_bounds hv.1 hv.2).1
  have hids : NodeIds H N :=
    hf.nodeIds (hf.exactLabels (by decide) hlaunch hrun hint).1 hstore hbound
  constructor
  · exact hsum
  · exact ⟨H, N, hmain, ⟨_, _, hdata⟩, hlab, hids⟩

/-- The grid of the file with the nodes 0, 1 and 2 in a row. -/
def wayGrid : Grid := ⟨3, [0, 1, 1, 2], [1, 0, 2, 1], [3, 3, 4, 4], [0, 1, 3, 4]⟩

theorem wayGrid_edge {u v l : Int} (h : wayGrid.HasEdge u v l) :
    (⟨u, v, l⟩ : TmpEdge) ∈ wayGrid.edges := by
  obtain ⟨e, hu, hv, hl⟩ := h
  obtain ⟨h0, h1⟩ := rd_bounds hu
  have hlen : wayGrid.startNode.length = 4 := rfl
  obtain ⟨i, rfl⟩ : ∃ i : Nat, e = i := ⟨e.toNat, by omega⟩
  have hi : i < 4 := by omega
  interval_cases i <;> cases hu <;> cases hv <;> cases hl <;> decide

/-- Each edge is as long as the stretch between its ends. -/
theorem wayGrid_metric (u v l : Int) (h : wayGrid.HasEdge u v l) :
    IsDist wayGrid.HasEdge u v l := by
  let place : Int → Int := idAt [0, 3, 7] ∘ Int.toNat
  have hplace : ∀ e ∈ wayGrid.edges, e.dist = |place e.destNode - place e.startNode| := by decide
  have hle : ∀ u v l, wayGrid.HasEdge u v l → l = |place v - place u| :=
    fun u v l h => hplace _ (wayGrid_edge h)
  refine ⟨Walk.single h, ?_⟩
  intro L hw
  rw [hle u v l h]
  apply abs_le.mpr
  constructor
  · have hback := hw.climb_le (fun u => - place u) (by
      intro u v l h
      rw [hle u v l h]
      have := neg_abs_le (place v - place u)
      omega)
    omega
  · exact hw.climb_le place (by
      intro u v l h
      rw [hle u v l h]
      exact le_abs_self _)

end LabelCreator

end SeaRouter
