import SeaRouter.Lib.SortedArray
import SeaRouter.Lib.Walk

/-!
# `dijkstragrid/Grid.java`, `Edge.java` and `Node.java`

The graph of the Dijkstra router: the edges are three parallel arrays, grouped
by their start node, and `offset` says where the edges of a node begin.  Of
the nodes only their number is used.
-/

namespace SeaRouter

open Java

/-- The static fields of `Grid`, `Edge` and `Node`. -/
structure Grid where
  nodeCount : Nat
  startNode : List Int
  destNode : List Int
  dist : List Int
  offset : List Int
deriving DecidableEq, Repr

namespace Grid

/-- An edge leads from `u` to `v` and has the length `l`. -/
def HasEdge (g : Grid) (u v l : Int) : Prop :=
  ∃ e : Int, rd g.startNode e = .ok u ∧ rd g.destNode e = .ok v ∧ rd g.dist e = .ok l

/-- The id of a node. -/
def IsNode (g : Grid) (v : Int) : Prop := 0 ≤ v ∧ v < g.nodeCount

/-- The edges are grouped by their start and `offset` holds the prefix sums of
the out-degrees. -/
structure WellFormed (g : Grid) : Prop where
  offsets : g.offset =
    (List.range (g.nodeCount + 1)).map fun v : Nat => (g.startNode.countP (· < (v : Int)) : Int)
  grouped : g.startNode.Pairwise (· ≤ ·)
  destLength : g.destNode.length = g.startNode.length
  distLength : g.dist.length = g.startNode.length
  start : ∀ u ∈ g.startNode, g.IsNode u
  dest : ∀ v ∈ g.destNode, g.IsNode v

variable {g : Grid}

theorem HasEdge.isNode (hw : g.WellFormed) {u v l : Int} (h : g.HasEdge u v l) :
    g.IsNode u ∧ g.IsNode v := by
  obtain ⟨e, hu, hv, _⟩ := h
  exact ⟨hw.start u (mem_of_rd hu), hw.dest v (mem_of_rd hv)⟩

/-- Each length is the length of an edge. -/
theorem WellFormed.exists_hasEdge (hw : g.WellFormed) {l : Int} (hl : l ∈ g.dist) :
    ∃ u v, g.HasEdge u v l := by
  obtain ⟨i, hi⟩ := List.mem_iff_getElem?.mp hl
  have hlt := (List.getElem?_eq_some_iff.mp hi).1
  rw [hw.distLength] at hlt
  obtain ⟨u, hu⟩ := exists_rd (a := g.startNode) (i := i) (by omega) (by omega)
  obtain ⟨v, hv⟩ := exists_rd (a := g.destNode) (i := i) (by omega) (by rw [hw.destLength]; omega)
  exact ⟨u, v, i, hu, hv, rd_of_getElem? hi⟩

theorem WellFormed.rd_offset (hw : g.WellFormed) {v : Int} (h0 : 0 ≤ v)
    (h1 : v ≤ g.nodeCount) : rd g.offset v = .ok (rank g.startNode v : Int) := by
  rw [rd_eq_ok]
  refine ⟨h0, ?_⟩
  rw [hw.offsets, List.getElem?_map, List.getElem?_range (by omega)]
  simp [rank, Int.toNat_of_nonneg h0]

/-- The edges between two offsets are those of the node. -/
theorem WellFormed.mem_range (hw : g.WellFormed) {e u v : Int}
    (hu : rd g.startNode e = .ok u) :
    (rank g.startNode v : Int) ≤ e ∧ e < rank g.startNode (v + 1) ↔ u = v := by
  obtain ⟨h0, he⟩ := rd_eq_ok.mp hu
  have h1 := lt_key_iff_lt_rank_of_le hw.grouped v _ u he
  have h2 := lt_key_iff_lt_rank_of_le hw.grouped (v + 1) _ u he
  omega

/-- What the loop over the edges of a node reads. -/
theorem WellFormed.exists_edge (hw : g.WellFormed) {e v : Int}
    (he : e ∈ indices (rank g.startNode v) (rank g.startNode (v + 1))) :
    ∃ w l, rd g.startNode e = .ok v ∧ rd g.destNode e = .ok w ∧ rd g.dist e = .ok l := by
  rw [mem_indices] at he
  have hle := rank_le_length g.startNode (v + 1)
  have h0 : 0 ≤ e := by omega
  obtain ⟨u, hu⟩ := exists_rd (a := g.startNode) h0 (by omega)
  obtain ⟨w, hdest⟩ := exists_rd (a := g.destNode) h0 (by rw [hw.destLength]; omega)
  obtain ⟨l, hdist⟩ := exists_rd (a := g.dist) h0 (by rw [hw.distLength]; omega)
  obtain rfl := (hw.mem_range hu).mp he
  exact ⟨w, l, hu, hdest, hdist⟩

/-- The loop over the edges of a node reads all of them. -/
theorem WellFormed.mem_indices_of_start (hw : g.WellFormed) {e v : Int}
    (hv : rd g.startNode e = .ok v) :
    e ∈ indices (rank g.startNode v) (rank g.startNode (v + 1)) := by
  rw [mem_indices]
  exact (hw.mem_range hv).mpr rfl

/-! ## The total length of the edges -/

/-- The total length of the edges that start in one of `nodes`. -/
def lengthFrom (startNode dist : List Int) (nodes : List Int) : Int :=
  ((startNode.zip dist).filter (fun e => e.1 ∈ nodes)).foldr (fun e s => e.2 + s) 0

theorem lengthFrom_nil (nodes dist : List Int) : lengthFrom [] dist nodes = 0 := rfl

theorem lengthFrom_cons (u l : Int) (startNode dist nodes : List Int) :
    lengthFrom (u :: startNode) (l :: dist) nodes
      = (if u ∈ nodes then l else 0) + lengthFrom startNode dist nodes := by
  unfold lengthFrom
  by_cases hu : u ∈ nodes <;> simp [hu]

theorem lengthFrom_le (nodes : List Int) : ∀ (startNode dist : List Int),
    (∀ l ∈ dist, 0 ≤ l) → lengthFrom startNode dist nodes ≤ dist.sum
  | [], dist, hnn => by
    rw [lengthFrom_nil]
    exact List.sum_nonneg hnn
  | u :: startNode, [], _ => by simp [lengthFrom]
  | u :: startNode, l :: dist, hnn => by
    have ih := lengthFrom_le nodes startNode dist
      (fun x hx => hnn x (List.mem_cons_of_mem l hx))
    have hl := hnn l (List.mem_cons_self ..)
    rw [lengthFrom_cons, List.sum_cons]
    split_ifs <;> omega

theorem lengthFrom_mono {nodes nodes' : List Int} (hsub : ∀ x ∈ nodes, x ∈ nodes') :
    ∀ startNode dist : List Int, (∀ l ∈ dist, 0 ≤ l) →
      lengthFrom startNode dist nodes ≤ lengthFrom startNode dist nodes'
  | [], dist, _ => le_refl _
  | u :: startNode, [], _ => le_refl _
  | u :: startNode, l :: dist, hnn => by
    have ih := lengthFrom_mono hsub startNode dist
      (fun x hx => hnn x (List.mem_cons_of_mem l hx))
    have hl := hnn l (List.mem_cons_self ..)
    rw [lengthFrom_cons, lengthFrom_cons]
    by_cases hu : u ∈ nodes
    · rw [if_pos hu, if_pos (hsub u hu)]
      omega
    · rw [if_neg hu]
      split_ifs <;> omega

/-- One more node adds at least the length of each of its edges. -/
theorem lengthFrom_snoc (nodes : List Int) {v : Int} (hv : v ∉ nodes) :
    ∀ (startNode dist : List Int) (n : Nat) (l : Int), (∀ x ∈ dist, 0 ≤ x) →
      startNode[n]? = some v → dist[n]? = some l →
      lengthFrom startNode dist nodes + l ≤ lengthFrom startNode dist (nodes ++ [v])
  | [], dist, n, l, _, hs, _ => by simp at hs
  | u :: startNode, [], n, l, _, _, hl => by simp at hl
  | u :: startNode, m :: dist, n, l, hnn, hs, hl => by
    have hm := hnn m (List.mem_cons_self ..)
    have hnn' : ∀ x ∈ dist, 0 ≤ x := fun x hx => hnn x (List.mem_cons_of_mem m hx)
    rw [lengthFrom_cons, lengthFrom_cons]
    cases n with
    | zero =>
      obtain rfl : u = v := by simpa using hs
      obtain rfl : m = l := by simpa using hl
      have := lengthFrom_mono (fun x (hx : x ∈ nodes) => List.mem_append_left [u] hx)
        startNode dist hnn'
      rw [if_neg hv, if_pos (by simp)]
      omega
    | succ n =>
      have ih := lengthFrom_snoc nodes hv startNode dist n l hnn' (by simpa using hs)
        (by simpa using hl)
      by_cases hu : u ∈ nodes
      · rw [if_pos hu, if_pos (List.mem_append_left _ hu)]
        omega
      · rw [if_neg hu]
        split_ifs <;> omega

end Grid

end SeaRouter
