import SeaRouter.Router.Pipeline

/-!
# Sums of lengths

The lengths that the program adds up are ints.  `SumsFit` asks for the lengths of all
edges that `calculateCH` leaves, shortcuts included, that their sum is one, and then no
sum of the program overflows:

* the searches of the contraction and of the Dijkstra router put an edge to a way
  without it, and such a way takes no edge twice;
* a label has the length of a way upwards, which takes no edge twice either, and so
  have the labels and the temporary labels that are taken over from neighbours;
* the merge loop and the removal of labels add two ways upwards, and each edge is there
  in both directions.

`Finished.isDist_le_totalDist` and `Finished.walk_up_le_totalDist` are the bounds for
distances and labels.
-/

namespace SeaRouter

open Java WGraph

namespace LabelCreator

open HubLNodes

variable {I : InputGraph} {n : Nat} {calcOrder : List Int} {s : LabelCreator} {top : Int}
  {L : Labels}

/-- The lengths of all edges and shortcuts after the contraction have a sum below
`MAX_VALUE`. -/
def SumsFit (I : InputGraph) (n : Nat) (calcOrder : List Int) : Prop :=
  ∀ s, calculateCH I.edges I.grid n calcOrder = .ok s → s.edges.totalDist < MAX_VALUE

/-- A run shows that the sums fit. -/
theorem sumsFit_of_run (h : (calculateCH I.edges I.grid n calcOrder).toOption.map
    (fun s => decide (s.edges.totalDist < MAX_VALUE)) = some true) : SumsFit I n calcOrder := by
  obtain ⟨s, hrun, hcheck⟩ := exists_of_map_toOption h
  intro s' hrun'
  obtain rfl : s = s' := Except.ok.inj (hrun.symm.trans hrun')
  exact of_decide_eq_true hcheck

/-- The values of the labels are ints, which they are in the arrays of the program. -/
def HoldsInts (n : Nat) (L : Labels) : Prop :=
  ∀ i : Nat, i < n → ∀ x, x ∈ rowOf L.labelNodes i ∨ x ∈ rowOf L.labelEdges i ∨
    x ∈ rowOf L.labelDist i → IsInt x

/-! ## The edges together -/

theorem nodup_indices (lo hi : Int) : (indices lo hi).Nodup := by
  apply List.Nodup.map ?_ List.nodup_range
  intro i j hij
  simp only at hij
  omega

theorem totalDist_eq_sum (E : Edges) :
    E.totalDist = ∑ e ∈ (indices 0 E.nextShortcutId).toFinset, E.distOf e :=
  (List.sum_toFinset E.distOf (nodup_indices 0 E.nextShortcutId)).symm

theorem mem_ids {E : Edges} {e : Int} : e ∈ (indices 0 E.nextShortcutId).toFinset ↔ E.IsId e := by
  rw [List.mem_toFinset, mem_indices, Edges.IsId]

theorem Finished.distOf_pos (h : Finished I n s top) {e : Int} (he : s.edges.IsId e) :
    0 < s.edges.distOf e := by
  obtain ⟨K, hh⟩ := h.hierarchy
  exact hh.pos e he

/-- There are not more edges than the sum of their lengths. -/
theorem Finished.isId_lt_totalDist (h : Finished I n s top) {e : Int}
    (he : s.edges.IsId e) : e < s.edges.totalDist := by
  have hcard := List.card_nsmul_le_sum ((indices 0 s.edges.nextShortcutId).map s.edges.distOf) 1
    (by
      intro l hl
      obtain ⟨e, he, rfl⟩ := List.mem_map.mp hl
      exact h.distOf_pos (mem_indices.mp he))
  rw [List.length_map, length_indices_zero, nsmul_eq_mul, mul_one] at hcard
  have hlast := he.2
  have hfirst := he.1
  unfold Edges.totalDist
  omega

/-- The input has a part of the edges. -/
theorem Finished.sum_le_totalDist (h : Finished I n s top) : I.dist.sum ≤ s.edges.totalDist := by
  obtain ⟨K, hh⟩ := h.hierarchy
  have hlen := h.undirected.distLength
  have hnext : (I.dist.length : Int) ≤ s.edges.nextShortcutId := by
    rw [hlen]
    exact hh.extends_.next_le
  have hmap : (indices 0 I.dist.length).map s.edges.distOf = I.dist := by
    apply List.ext_getElem?
    intro i
    by_cases hi : i < I.dist.length
    · have hid : I.edges.IsId (i : Int) := h.undirected.isId_iff.mpr (by omega)
      have hget := List.getElem?_eq_getElem hi
      have hlt : (i : Int) < I.edges.numOfOriginalEdges := by
        show (i : Int) < (I.dest.length : Nat)
        omega
      have hidx : (indices 0 (I.dist.length : Int))[i]? = some (i : Int) := by
        simp [indices, hi]
      rw [List.getElem?_map, hidx, Option.map_some,
        hh.extends_.distOf_eq h.undirected.valid hid, Edges.distOf, Edges.getDist, if_pos hlt, hget]
      exact congrArg (fun r => some (Edges.valueOf r)) (rd_of_getElem? hget)
    · rw [List.getElem?_eq_none (not_lt.mp hi), List.getElem?_eq_none]
      rw [List.length_map, length_indices_zero, Int.toNat_natCast]
      exact not_lt.mp hi
  have hsub : (indices 0 I.dist.length).Sublist (indices 0 s.edges.nextShortcutId) := by
    apply List.Sublist.map
    apply List.range_sublist.mpr
    omega
  calc I.dist.sum = ((indices 0 I.dist.length).map s.edges.distOf).sum := by rw [hmap]
    _ ≤ s.edges.totalDist := by
      apply List.Sublist.sum_le_sum (hsub.map s.edges.distOf)
      intro l hl
      obtain ⟨e, he, rfl⟩ := List.mem_map.mp hl
      exact le_of_lt (h.distOf_pos (mem_indices.mp he))

/-! ## Distances and labels -/

theorem Finished.isDist_le_totalDist (h : Finished I n s top) {u v d : Int} (hd : IsDist I.Adj u v d) :
    d ≤ s.edges.totalDist := by
  obtain ⟨K, hh⟩ := h.hierarchy
  rw [totalDist_eq_sum]
  have hedge : ∀ x y l, I.Adj x y l → ∃ e ∈ (indices 0 s.edges.nextShortcutId).toFinset,
      s.edges.startOf e = x ∧ s.edges.distOf e = l := by
    intro x y l hxy
    obtain ⟨e, he, rfl, rfl⟩ := hxy
    obtain ⟨h0, h1, hstart⟩ := (h.undirected.rows_iff x e).mp he
    have hid := h.undirected.isId_iff.mpr ⟨h0, h1⟩
    refine ⟨e, mem_ids.mpr (hh.extends_.isId hid), ?_,
      hh.extends_.distOf_eq h.undirected.valid hid⟩
    rw [hh.extends_.startOf_eq h.undirected.valid hid, hstart]
  exact hd.le_sum (fun e he => le_of_lt (h.distOf_pos (mem_ids.mp he))) h.adj_pos hedge

theorem Finished.isDist_lt (h : Finished I n s top) (hfit : s.edges.totalDist < MAX_VALUE)
    (u v d : Int) (hd : IsDist I.Adj u v d) : d < MAX_VALUE :=
  lt_of_le_of_lt (h.isDist_le_totalDist hd) hfit

/-- A way upwards takes no edge twice. -/
theorem Finished.walk_up_le_totalDist (h : Finished I n s top) {u v d : Int}
    (hw : Walk (Finished.Up s) u v d) : 0 ≤ d ∧ d ≤ s.edges.totalDist := by
  obtain ⟨K, hh⟩ := h.hierarchy
  have hpos : ∀ e ∈ (indices 0 s.edges.nextShortcutId).toFinset, 0 ≤ s.edges.distOf e :=
    fun e he => le_of_lt (h.distOf_pos (mem_ids.mp he))
  have hstep : ∀ x y l, Finished.Up s x y l → levelOf s x < levelOf s y ∧
      ∃ e ∈ (indices 0 s.edges.nextShortcutId).toFinset,
        s.edges.startOf e = x ∧ s.edges.distOf e = l := by
    intro x y l hxy
    obtain ⟨e, he, _, hl, hlt⟩ := hxy
    obtain ⟨_, hid, hstart, _⟩ := hh.edge_all h.undirected he
    exact ⟨hlt, e, mem_ids.mpr hid, hstart, hl⟩
  constructor
  · apply hw.nonneg
    intro x y l hxy
    obtain ⟨_, e, he, _, rfl⟩ := hstep x y l hxy
    exact hpos e he
  · rw [totalDist_eq_sum]
    exact hw.le_sum hpos hstep

/-- The edges upwards of a node, as walks of one edge. -/
theorem Finished.up_ups (h : Finished I n s top) (x : Int) :
    ∀ e ∈ HLDijkstra.ups s.edges s.grid s.levels x,
      Walk (Finished.Up s) x (s.edges.destOf e) (s.edges.distOf e) := by
  intro e he
  obtain ⟨hall, hlt⟩ := (HLDijkstra.mem_ups h.upward).mp he
  exact Walk.single ⟨e, hall, rfl, rfl, hlt⟩

/-- The values of the labels are ints, when the sums are. -/
theorem Finished.holdsInts (h : Finished I n s top) (hfit : s.edges.totalDist < MAX_VALUE)
    {T K : Nat} (hT : 0 < T)
    (hrun : calcLabels T K s.edges s.grid s.levels n (Labels.new n) = .ok L) : HoldsInts n L := by
  obtain ⟨order, m, L', _, hdone, hseq, _⟩ := h.calcLabels_done_of h.up_ups K
  obtain rfl : L = L' := Except.ok.inj (hrun.symm.trans (hseq T hT))
  have hmax : MAX_VALUE = 2147483647 := rfl
  have hsmall := h.undirected.small
  intro i hi x hx
  by_cases hv : Before order m (i : Int)
  · obtain ⟨_, hs, es, ds, hrow, hfair⟩ := hdone.labelled i hv
    rw [rowOf, rowOf, rowOf, hrow.nodes, hrow.edges, hrow.dists] at hx
    have hnd := nodup_of_sorted hfair.rows.sorted
    -- the label that a value belongs to
    have hlabel : ∀ j : Nat, j < hs.length → ∃ g, assoc hs ds g = ds[j]? ∧ assoc hs es g = es[j]? := by
      intro j hj
      have hget := List.getElem?_eq_getElem hj
      exact ⟨hs[j], assoc_of_getElem? hnd hget, assoc_of_getElem? hnd hget⟩
    rcases hx with hx | hx | hx
    · have hnode : 0 ≤ x ∧ x < n := by
        rcases hfair.member x hx with rfl | ⟨hmem, _⟩
        · omega
        · exact (hdone.labelled x hmem).1
      constructor <;> omega
    · obtain ⟨j, hj⟩ := List.mem_iff_getElem?.mp hx
      have hjlt := (List.getElem?_eq_some_iff.mp hj).1
      obtain ⟨g, hd, he⟩ := hlabel j (by rw [← hfair.rows.edgeLength]; exact hjlt)
      rw [hj] at he
      by_cases hg : g = i
      · rw [hg, hfair.selfEdge, Option.some.injEq] at he
        rw [← he]
        decide
      · obtain ⟨d, hdist⟩ := exists_assoc_of_mem hfair.rows.distLength (mem_of_assoc he)
        obtain ⟨e, _, hedge, hfirst, _⟩ := hfair.reach g d hdist hg
        rw [he, Option.some.injEq] at hedge
        subst hedge
        obtain ⟨K, hh⟩ := h.hierarchy
        have hall := ((HLDijkstra.mem_ups h.upward).mp (HLDijkstra.firstTo_some hfirst).1).1
        have hid := (hh.edge_all h.undirected hall).2.1
        have hlt := h.isId_lt_totalDist hid
        have h0 := hid.1
        constructor <;> omega
    · obtain ⟨j, hj⟩ := List.mem_iff_getElem?.mp hx
      have hjlt := (List.getElem?_eq_some_iff.mp hj).1
      obtain ⟨g, hd, _⟩ := hlabel j (by rw [← hfair.rows.distLength]; exact hjlt)
      rw [hj] at hd
      have hb := h.walk_up_le_totalDist (hfair.walk (h.up_ups i) hd)
      constructor <;> omega
  · obtain ⟨h1, h2, h3⟩ := hdone.none i (by omega) (by omega) hv
    rw [rowOf, rowOf, rowOf, h1, h2, h3] at hx
    simp at hx

end LabelCreator

end SeaRouter
