import SeaRouter.HubLabelCreation.HubLabels
import SeaRouter.Router.Selection

/-!
# The data that the calculation leaves

`calculateCH`, a set of labels and `serializeHubLData` together make the data
that the router reads.  `Finished.cutData` says that it is what the searches rely
on: the edges that are stored below the level `K` begin shortest ways since the
hierarchy is a ranked graph.

`select_isDist` is the selection of a request on that data, whatever the number of
levels without labels is.
-/

namespace SeaRouter

open Java WGraph

namespace LabelCreator

open HubLRouter HubLNodes

variable {I : InputGraph} {n : Nat} {calcOrder : List Int} {s : LabelCreator} {top K : Int}
  {L : Labels} {H : HubLEdges} {N : HubLNodes}

/-- The labels of the nodes from the level `K` on are sorted and exact, and cover
these nodes. -/
structure ExactLabels (I : InputGraph) (n : Nat) (s : LabelCreator) (K : Int) (L : Labels) :
    Prop where
  state : LabelState n L
  sorted : ∀ v, ((entries L v).map fun e => e.1).Pairwise (· < ·)
  exact : ∀ v h e d, (h, e, d) ∈ entries L v → IsDist I.Adj v h d
  cover : ∀ v w d : Int, (0 ≤ v ∧ v < n) → (0 ≤ w ∧ w < n) → K ≤ levelOf s v → K ≤ levelOf s w →
    IsDist I.Adj v w d →
    ∃ h e a e' b, (h, e, a) ∈ entries L v ∧ (h, e', b) ∈ entries L w ∧ a + b = d

theorem entries_node (hL : LabelState n L) {v : Int} (h : entries L v ≠ []) : 0 ≤ v ∧ v < n := by
  have hlen := hL.sized.nodes
  cases hrd : rd L.labelNodes v with
  | error e =>
    exfalso
    apply h
    rw [entries, rowOf, hrd]
    rfl
  | ok row =>
    have := rd_bounds hrd
    omega

/-- The state that `serializeHubLData` starts from. -/
theorem Finished.gridState (h : Finished I n s top) :
    GridState n (fun _ => True) s.edges s.grid s.levels := by
  obtain ⟨K, hh⟩ := h.hierarchy
  refine ⟨hh.consistent.valid, hh.consistent.levelsLength, hh.consistent.all, ?_⟩
  intro u e he
  obtain ⟨_, hid, _, hd⟩ := hh.edge_all h.undirected he
  exact ⟨hid, hd⟩

/-- An edge of the hierarchy in the store of the router. -/
theorem Finished.store_edge (h : Finished I n s top) (hH : HubLEdges.Copies s.edges H) {u e : Int}
    (he : e ∈ s.grid.all u) :
    H.getDest e = .ok (s.edges.destOf e) ∧ H.getDist e = .ok (s.edges.distOf e) := by
  obtain ⟨K, hh⟩ := h.hierarchy
  obtain ⟨_, hid, _, _⟩ := hh.edge_all h.undirected he
  have hedge := hh.consistent.valid.isEdge hid
  rw [hH.dest e hid, hH.dist e hid]
  exact ⟨hedge.dest, hedge.dist⟩

/-- The router has the levels and the cut of the calculation. -/
theorem labelled_iff (hstore : Stores n K s.levels s.edges s.grid L H N) (v : Int) :
    (HubLRouter.levelOf N v = levelOf s v) ∧ (Labelled N v ↔ K ≤ levelOf s v) := by
  have hlevel : HubLRouter.levelOf N v = levelOf s v := by
    rw [HubLRouter.levelOf, hstore.levels_eq]
    rfl
  refine ⟨hlevel, ?_⟩
  rw [Labelled, hlevel, hstore.hlLevel_eq]

theorem Stores.labelArrays (hlevels : s.levels.length = n)
    (hstore : Stores n K s.levels s.edges s.grid L H N) : LabelArrays n N (entries L) where
  levels := by rw [hstore.levels_eq, hlevels]
  node := hstore.column (fun e => e.1) hstore.node
  edge := hstore.column (fun e => e.2.1) hstore.edge
  dist := hstore.column (fun e => e.2.2) hstore.dist
  more := by
    rw [hstore.node, List.length_append, List.length_map]
    exact Nat.lt_succ_self _

theorem Finished.cutData (h : Finished I n s top) (hL : ExactLabels I n s K L)
    (hstore : Stores n K s.levels s.edges s.grid L H N)
    (hbound : ∀ u v d, IsDist I.Adj u v d → d < MAX_VALUE) :
    CutData I.Adj n H N (storedEdges s.edges s.grid s.levels K) (entries L) := by
  obtain ⟨Kp, hh⟩ := h.hierarchy
  have hlab := labelled_iff hstore
  have hstored : ∀ u e, ¬ Labelled N u → (e ∈ storedEdges s.edges s.grid s.levels K u ↔
      e ∈ s.grid.all u ∧ levelOf s u < levelOf s (s.edges.destOf e)) := by
    intro u e hu
    have hlow : ¬ K ≤ HLDijkstra.level s.levels u := fun hle => hu ((hlab u).2.mpr hle)
    rw [storedEdges, if_neg hlow, List.mem_filter, decide_eq_true_iff]
    exact Iff.rfl
  refine ⟨Stores.labelArrays hh.consistent.levelsLength hstore, ?_, hh.consistent.small,
    h.adj_symm, h.adj_pos, hbound, hL.sorted, ?_, fun v => entries_node hL.state, hL.exact, ?_, ?_,
    ?_⟩
  · have := hstore.edgeRows
    rw [edgeRows, hstore.levels_eq, hstore.hlLevel_eq] at this
    exact this
  · intro v g e d hmem
    by_cases hgv : g = v
    · rw [hgv]
      exact entries_node hL.state (List.ne_nil_of_mem hmem)
    · exact (h.walk_node (hL.exact v g e d hmem).1 hgv).2
  · intro v w d hv hw hlv hlw
    exact hL.cover v w d hv hw ((hlab v).2.mp hlv) ((hlab w).2.mp hlw)
  · intro u e hu he
    obtain ⟨hall, hup⟩ := (hstored u e hu).mp he
    obtain ⟨hdest, hdist⟩ := h.store_edge hstore.copies hall
    have hd := (h.upward.edge u e hall).2.2
    refine ⟨_, _, hdest, hdist, h.walk_all hall, ?_, hd⟩
    rw [(hlab u).1, (hlab _).1]
    exact hup
  · intro u w d hu hd hne hle
    rw [(hlab u).1, (hlab w).1] at hle
    obtain ⟨x, l, b, hUp, hb, hsum⟩ := h.ranked.hop u w d hd hne hle
    obtain ⟨e, he, rfl, rfl, hup⟩ := hUp
    obtain ⟨hdest, hdist⟩ := h.store_edge hstore.copies he
    exact ⟨_, _, b, ⟨hu, e, (hstored u e hu).mpr ⟨he, hup⟩, hdest, hdist⟩, hb, hsum⟩

/-! ## The labels that `calcLabels` calculates -/

theorem hasLabel_iff_mem {v h d e : Int} :
    HasLabel L v h d e ↔ (h, e, d) ∈ entries L v := by
  constructor
  · intro hex
    obtain ⟨hs, es, ds, hrow, i, hi, hdi, hei⟩ := hex
    apply List.mem_of_getElem? (i := i)
    rw [entries, rowOf, rowOf, rowOf, hrow.nodes, hrow.edges, hrow.dists]
    simp [List.getElem?_zip_eq_some, hi, hdi, hei]
  · intro hmem
    obtain ⟨i, hi⟩ := List.mem_iff_getElem?.mp hmem
    rw [entries, List.getElem?_zip_eq_some, List.getElem?_zip_eq_some] at hi
    have hsome : ∀ (a : List (Option (List Int))) (x : Int), (rowOf a v)[i]? = some x →
        ∃ row, rd a v = .ok (some row) ∧ row[i]? = some x := by
      intro a x hx
      rw [rowOf] at hx
      split at hx
      · exact ⟨_, by assumption, hx⟩
      · simp at hx
    obtain ⟨hs, h1, h1'⟩ := hsome _ _ hi.1
    obtain ⟨es, h2, h2'⟩ := hsome _ _ hi.2.1
    obtain ⟨ds, h3, h3'⟩ := hsome _ _ hi.2.2
    exact ⟨hs, es, ds, ⟨h1, h2, h3⟩, i, h1', h3', h2'⟩

/-- What the labels are, whichever edges the nodes list first: the label of a node
for another one has a higher level, and the length of a way that begins with the
first edge listed to its end. -/
structure FairLabels (I : InputGraph) (n : Nat) (s : LabelCreator) (K : Int) (L : Labels) :
    Prop where
  state : LabelState n L
  sorted : ∀ v, ((entries L v).map fun e => e.1).Pairwise (· < ·)
  self : ∀ v : Int, (0 ≤ v ∧ v < n) → K ≤ levelOf s v → ∃ e, (v, e, 0) ∈ entries L v
  walk : ∀ v g e d, (g, e, d) ∈ entries L v → Walk I.Adj v g d
  up : ∀ v g e d, (g, e, d) ∈ entries L v → g ≠ v → levelOf s v < levelOf s g
  next : ∀ v g e d, (g, e, d) ∈ entries L v → g ≠ v →
    HLDijkstra.firstTo s.edges (s.grid.all v) (s.edges.destOf e) = some e ∧
      levelOf s v < levelOf s (s.edges.destOf e) ∧
      Walk I.Adj (s.edges.destOf e) g (d - s.edges.distOf e)

/-- A label is in the row of its node. -/
theorem hasLabel_row {v g e d : Int} {hs es ds : List Int} (hrow : HLDijkstra.Row L v hs es ds)
    (hrows : HLDijkstra.Rows hs ds es) :
    (g, e, d) ∈ entries L v ↔ assoc hs ds g = some d ∧ assoc hs es g = some e := by
  rw [← hasLabel_iff_mem]
  exact hasLabel_iff hrow hrows

/-- Only the nodes before the position `m` have labels. -/
theorem before_of_entries {E : Edges} {D : DynamicGrid} {levels order : List Int} {m : Nat}
    {G : Int → Int → Int → Prop} (hdone : Done G n E D levels order m L) {v g e d : Int}
    (hmem : (g, e, d) ∈ entries L v) : Before order m v := by
  by_contra hnot
  obtain ⟨hs, es, ds, hrow, _⟩ := hasLabel_iff_mem.mpr hmem
  have hlen := hdone.sized.nodes
  have hb := rd_bounds hrow.nodes
  have := (hdone.none v hb.1 (by omega) hnot).1
  rw [hrow.nodes] at this
  simp at this

theorem Finished.fairLabels (h : Finished I n s top) {T K : Nat} (hT : 0 < T)
    (hrun : calcLabels T K s.edges s.grid s.levels n (Labels.new n) = .ok L)
    (hint : ∀ i : Nat, i < n → ∀ x, x ∈ rowOf L.labelNodes i ∨ x ∈ rowOf L.labelEdges i ∨
      x ∈ rowOf L.labelDist i → IsInt x) : FairLabels I n s K L := by
  obtain ⟨order, m, L', hbefore, hdone, hseq, _⟩ := h.calcLabels_done K
  obtain rfl : L = L' := Except.ok.inj (hrun.symm.trans (hseq T hT))
  refine ⟨⟨hdone.sized, ?_, hint⟩, ?_, ?_, ?_, ?_, ?_⟩
  · intro i hi
    by_cases hv : Before order m (i : Int)
    · obtain ⟨_, hs, es, ds, hrow, hfair⟩ := hdone.labelled i hv
      exact Or.inr ⟨hs, es, ds, hrow.nodes, hrow.edges, hrow.dists, hfair.rows.edgeLength,
        hfair.rows.distLength⟩
    · exact Or.inl (hdone.none i (by omega) (by omega) hv)
  · intro v
    by_cases hv : Before order m v
    · obtain ⟨_, hs, es, ds, hrow, hfair⟩ := hdone.labelled v hv
      have hzip : entries L v = hs.zip (es.zip ds) := by
        rw [entries, rowOf, rowOf, rowOf, hrow.nodes, hrow.edges, hrow.dists]
      have hcol : (entries L v).map (fun e => e.1) = hs := by
        have h1 := hfair.rows.edgeLength
        have h2 := hfair.rows.distLength
        rw [hzip]
        exact List.map_fst_zip (by rw [List.length_zip]; omega)
      rw [hcol]
      exact hfair.rows.sorted
    · have hnil : entries L v = [] := by
        rw [List.eq_nil_iff_forall_not_mem]
        intro x hx
        exact hv (before_of_entries hdone (g := x.1) (e := x.2.1) (d := x.2.2) hx)
      rw [hnil]
      exact List.Pairwise.nil
  · intro v hv hlv
    obtain ⟨_, hs, es, ds, hrow, hfair⟩ := hdone.labelled v ((hbefore v).mpr ⟨hv, hlv⟩)
    obtain ⟨e, he⟩ := exists_assoc_of_mem hfair.rows.edgeLength (mem_of_assoc hfair.self)
    exact ⟨e, (hasLabel_row hrow hfair.rows).mpr ⟨hfair.self, he⟩⟩
  · intro v g e d hmem
    obtain ⟨_, hs, es, ds, hrow, hfair⟩ := hdone.labelled v (before_of_entries hdone hmem)
    exact hfair.walk (h.walk_ups v) ((hasLabel_row hrow hfair.rows).mp hmem).1
  · intro v g e d hmem hne
    obtain ⟨_, hs, es, ds, hrow, hfair⟩ := hdone.labelled v (before_of_entries hdone hmem)
    have hg := mem_of_assoc ((hasLabel_row hrow hfair.rows).mp hmem).1
    exact ((hfair.member g hg).resolve_left hne).2
  · intro v g e d hmem hne
    obtain ⟨_, hs, es, ds, hrow, hfair⟩ := hdone.labelled v (before_of_entries hdone hmem)
    obtain ⟨hdist, hedge⟩ := (hasLabel_row hrow hfair.rows).mp hmem
    obtain ⟨e', m', he', hfirst, hw, rfl, _⟩ := hfair.reach g d hdist hne
    rw [hedge, Option.some.injEq] at he'
    subst he'
    obtain ⟨_, hlt⟩ := (HLDijkstra.mem_ups h.upward).mp (HLDijkstra.firstTo_some hfirst).1
    rw [HLDijkstra.ups, firstTo_notDown hlt] at hfirst
    rw [add_sub_cancel_left]
    exact ⟨hfirst, hlt, hw⟩

/-- The labels that `calcLabels` leaves, when to each hub of a node with labels a
shortest way begins with an edge that is listed first, are the hubs. -/
theorem Finished.entries_iff (h : Finished I n s top) {K m : Nat} {order : List Int}
    (hbefore : ∀ u, Before order m u ↔ (0 ≤ u ∧ u < n) ∧ (K : Int) ≤ levelOf s u)
    (hdone : Done I.Adj n s.edges s.grid s.levels order m L)
    (hlaunch : ∀ u : Int, (0 ≤ u ∧ u < n) → K ≤ levelOf s u →
      HLDijkstra.Launches I.Adj s.edges s.grid s.levels u)
    {v : Int} (hv : Before order m v) (g d : Int) :
    (∃ e, (g, e, d) ∈ entries L v) ↔
      IsHub I.Adj (HLDijkstra.level s.levels) v g ∧ IsDist I.Adj v g d := by
  have hcan := hdone.canonical _ h.ranked fun u hu =>
    hlaunch u ((hbefore u).mp hu).1 ((hbefore u).mp hu).2
  obtain ⟨_, hs, es, ds, hrow, hfair⟩ := hdone.labelled v hv
  rw [← hcan v hs es ds hv hrow g d]
  constructor
  · intro hex
    obtain ⟨e, he⟩ := hex
    exact ((hasLabel_row hrow hfair.rows).mp he).1
  · intro hd
    obtain ⟨e, he⟩ := exists_assoc_of_mem hfair.rows.edgeLength (mem_of_assoc hd)
    exact ⟨e, (hasLabel_row hrow hfair.rows).mpr ⟨hd, he⟩⟩

/-- They are exact, and their edges lead along shortest ways. -/
theorem Finished.exactLabels (h : Finished I n s top) {T K : Nat} (hT : 0 < T)
    (hlaunch : ∀ u : Int, (0 ≤ u ∧ u < n) → K ≤ levelOf s u →
      HLDijkstra.Launches I.Adj s.edges s.grid s.levels u)
    (hrun : calcLabels T K s.edges s.grid s.levels n (Labels.new n) = .ok L)
    (hint : ∀ i : Nat, i < n → ∀ x, x ∈ rowOf L.labelNodes i ∨ x ∈ rowOf L.labelEdges i ∨
      x ∈ rowOf L.labelDist i → IsInt x) :
    ExactLabels I n s K L ∧
      ∀ v g d e, (g, e, d) ∈ entries L v → g ≠ v →
        e ∈ s.grid.all v ∧ levelOf s v < levelOf s (s.edges.destOf e) ∧
        ∃ e', (g, e', d - s.edges.distOf e) ∈ entries L (s.edges.destOf e) := by
  have hfairs := h.fairLabels hT hrun hint
  obtain ⟨order, m, L', hbefore, hdone, hseq, _⟩ := h.calcLabels_done K
  obtain rfl : L = L' := Except.ok.inj (hrun.symm.trans (hseq T hT))
  have hcan := hdone.canonical _ h.ranked fun u hu =>
    hlaunch u ((hbefore u).mp hu).1 ((hbefore u).mp hu).2
  have hup : ∀ v, Before order m v → ∀ e ∈ HLDijkstra.ups s.edges s.grid s.levels v,
      Before order m (s.edges.destOf e) := by
    intro v hv e he
    obtain ⟨hall, hlt⟩ := (HLDijkstra.mem_ups h.upward).mp he
    have hlv := ((hbefore v).mp hv).2
    have hlt' : levelOf s v < levelOf s (s.edges.destOf e) := hlt
    exact (hbefore _).mpr ⟨(h.upward.edge v e hall).2.2, by omega⟩
  have hiff := fun v g d hv => h.entries_iff hbefore hdone hlaunch (v := v) hv g d
  refine ⟨⟨hfairs.state, hfairs.sorted, ?_, ?_⟩, ?_⟩
  · intro v g e d hlabel
    exact ((hiff v g d (before_of_entries hdone hlabel)).mp ⟨e, hlabel⟩).2
  · intro v w d hv hw hlv hlw hd
    obtain ⟨g, hon, hvg, hwg, _⟩ := h.ranked.exists_hub hd
    obtain ⟨a, ha⟩ := hvg.joined
    obtain ⟨b, hb⟩ := hwg.joined
    obtain ⟨e, he⟩ := (hiff v g a ((hbefore v).mpr ⟨hv, hlv⟩)).mpr ⟨hvg, ha⟩
    obtain ⟨e', he'⟩ := (hiff w g b ((hbefore w).mpr ⟨hw, hlw⟩)).mpr ⟨hwg, hb⟩
    exact ⟨g, e, a, e', b, he, he', hon.add ha (hb.symm h.adj_symm) hd⟩
  · intro v g d e hlabel hne
    have hv := before_of_entries hdone hlabel
    obtain ⟨hall, hlt, d', e', hlabel', hsum⟩ :=
      hdone.nextHop h hcan hv (hasLabel_iff_mem.mpr hlabel) hne (hup v hv)
    refine ⟨hall, hlt, e', ?_⟩
    rw [← hsum, add_sub_cancel_left]
    exact hasLabel_iff_mem.mp hlabel'

/-- The node `c` has an edge to every other node, of at most the length `b`. -/
def starBelow (I : InputGraph) (n : Nat) (c b : Int) : Bool :=
  (List.range n).all fun v => decide ((v : Int) = c) || (I.grid.current c).any fun e =>
    decide (I.edges.destOf e = v ∧ I.edges.distOf e ≤ b)

/-- Around such a node all distances are small. -/
theorem Finished.isDist_le (h : Finished I n s top) {c b : Int} (hb : 0 ≤ b)
    (hstar : starBelow I n c b = true) {u v d : Int} (hd : IsDist I.Adj u v d) : d ≤ 2 * b := by
  have hway : ∀ v : Int, 0 ≤ v → v < n → ∃ l, Walk I.Adj c v l ∧ l ≤ b := by
    intro v h0 h1
    obtain ⟨k, rfl⟩ : ∃ k : Nat, v = k := ⟨v.toNat, by omega⟩
    simp only [starBelow, List.all_eq_true, List.mem_range, Bool.or_eq_true, decide_eq_true_iff,
      List.any_eq_true] at hstar
    rcases hstar k (by omega) with heq | ⟨e, he, hdest, hdist⟩
    · exact ⟨0, heq ▸ Walk.nil _, hb⟩
    · exact ⟨_, Walk.single ⟨e, he, hdest, rfl⟩, hdist⟩
  by_cases hne : v = u
  · subst hne
    have := hd.unique (isDist_self h.ranked.nonneg v)
    omega
  · obtain ⟨hu, hv⟩ := h.walk_node hd.1 hne
    obtain ⟨a, ha, hab⟩ := hway u hu.1 hu.2
    obtain ⟨a', ha', hab'⟩ := hway v hv.1 hv.2
    have := hd.2 _ ((ha.reverse h.adj_symm).append ha')
    omega

/-- The values in the labels of the nodes `0` to `n - 1` are ints. -/
def intLabels (n : Nat) (L : Labels) : Bool :=
  (List.range n).all fun i =>
    (rowOf L.labelNodes i ++ rowOf L.labelEdges i ++ rowOf L.labelDist i).all fun x =>
      decide (IsInt x)

theorem isInt_of_intLabels (h : intLabels n L = true) :
    ∀ i : Nat, i < n → ∀ x, x ∈ rowOf L.labelNodes i ∨ x ∈ rowOf L.labelEdges i ∨
      x ∈ rowOf L.labelDist i → IsInt x := by
  intro i hi x hx
  simp only [intLabels, List.all_eq_true, List.mem_range, List.mem_append, decide_eq_true_iff] at h
  apply h i hi x
  tauto

/-- The labels of the row when only the first level has none. -/
theorem row_labels : ∃ s L, calculateCH row.edges row.grid 3 [1, 0, 2] = .ok s ∧
    calcLabels NUM_OF_THREADS 1 s.edges s.grid s.levels 3 (Labels.new 3) = .ok L ∧
    ExactLabels row 3 s 1 L ∧ ∀ u v d, IsDist row.Adj u v d → d < MAX_VALUE := by
  obtain ⟨s, top, hrun, hf⟩ := calculateCH_finished row_checked.undirected row_positive
    mem_detourOrder
  obtain ⟨s', hrun', hcheck⟩ := exists_of_map_toOption
    (p := fun s => (calcLabels NUM_OF_THREADS 1 s.edges s.grid s.levels 3
      (Labels.new 3)).toOption.map (intLabels 3) == some true)
    (show (calculateCH row.edges row.grid 3 [1, 0, 2]).toOption.map _ = some true by
      decide +kernel)
  obtain rfl : s = s' := Except.ok.inj (hrun.symm.trans hrun')
  obtain ⟨L, hL, hint⟩ := exists_of_map_toOption (by simpa using hcheck)
  refine ⟨s, L, hrun, hL, ?_, ?_⟩
  · exact (hf.exactLabels (by decide) (fun u _ _ => hf.launches (row_firstShortest s hrun) u) hL
      (isInt_of_intLabels hint)).1
  · intro u v d hd
    have := hf.isDist_le (c := 1) (b := 1) (by decide) (by decide +kernel) hd
    rw [MAX_VALUE]
    omega

/-! ## The selection on this data -/

theorem Finished.selection (h : Finished I n s top) (hL : ExactLabels I n s K L)
    (hstore : Stores n K s.levels s.edges s.grid L H N)
    (hbound : ∀ u v d, IsDist I.Adj u v d → d < MAX_VALUE) {u v : Int} {r : HubLRouter}
    (hu : 0 ≤ u ∧ u < n) (hv : 0 ≤ v ∧ v < n) (hr : Usable r) :
    ∃ F best r',
      (∀ fuel, F ≤ fuel → select fuel H N r u v = .ok (best, r') ∧
        route fuel H N r u v =
          if best.highestLvlNode = -1 then .ok (RoutingResult.notFound, r')
          else extract fuel H N r' u v best) ∧
      (best.highestLvlNode = -1 ↔ ¬ ∃ l, Walk I.Adj u v l) ∧
      (best.highestLvlNode ≠ -1 → IsDist I.Adj u v best.currDistance) := by
  have hd := h.cutData hL hstore hbound
  obtain ⟨F, best, r', la, lb, offA, offB, hsel, _, _, _, hselects⟩ := select_spec hd hu hv hr
  refine ⟨F, best, r', ?_, ?_, ?_⟩
  · intro fuel hfuel
    refine ⟨hsel fuel hfuel, ?_⟩
    rw [route_eq, hsel fuel hfuel]
    rfl
  · rcases hselects with ⟨rfl, hno⟩ | ⟨i, j, g, a, b, hg, hdist, hp⟩
    · exact ⟨fun _ => hno, fun _ => rfl⟩
    · constructor
      · intro hneg
        rw [hp.hub] at hneg
        omega
      · intro hno
        exact absurd ⟨_, hdist.1⟩ hno
  · intro hne
    rcases hselects with ⟨rfl, _⟩ | ⟨i, j, g, a, b, _, hdist, hp⟩
    · exact absurd rfl hne
    · rw [hp.dist]
      exact hdist

/-- The selection of a request, for any level `K` from which on there are labels.
It never fails, finds no common label only if the two nodes are not connected, and
otherwise selects their distance. -/
theorem select_isDist (hI : I.Undirected n) (hpos : I.Positive)
    (horder : ∀ u : Int, u ∈ calcOrder ↔ 0 ≤ u ∧ u < n)
    (hch : calculateCH I.edges I.grid n calcOrder = .ok s) (hL : ExactLabels I n s K L)
    (hbound : ∀ u v d, IsDist I.Adj u v d → d < MAX_VALUE) :
    ∃ H N, serializeHubLData K s.levels s.edges s.grid L = .ok (H, N) ∧
      ∀ (u v : Int) (r : HubLRouter), (0 ≤ u ∧ u < n) → (0 ≤ v ∧ v < n) → u ≠ v → Usable r →
        ∃ F best r',
          (∀ fuel, F ≤ fuel → select fuel H N r u v = .ok (best, r') ∧
            route fuel H N r u v =
              if best.highestLvlNode = -1 then .ok (RoutingResult.notFound, r')
              else extract fuel H N r' u v best) ∧
          (best.highestLvlNode = -1 ↔ ¬ ∃ l, Walk I.Adj u v l) ∧
          (best.highestLvlNode ≠ -1 → IsDist I.Adj u v best.currDistance) := by
  obtain ⟨s', top, hrun, hf⟩ := calculateCH_finished hI hpos horder
  obtain rfl : s = s' := Except.ok.inj (hch.symm.trans hrun)
  obtain ⟨H, N, hser, hstore⟩ := serializeHubLData_spec hf.gridState hL.state K
  exact ⟨H, N, hser, fun u v r hu hv _ hr => hf.selection hL hstore hbound hu hv hr⟩

theorem select_isDist_row :
    ∃ s L H N, calculateCH row.edges row.grid 3 [1, 0, 2] = .ok s ∧
      calcLabels NUM_OF_THREADS 1 s.edges s.grid s.levels 3 (Labels.new 3) = .ok L ∧
      serializeHubLData 1 s.levels s.edges s.grid L = .ok (H, N) ∧
      ∃ F best r', (∀ fuel, F ≤ fuel → select fuel H N HubLRouter.new 0 1 = .ok (best, r')) ∧
        (best.highestLvlNode ≠ -1 → IsDist row.Adj 0 1 best.currDistance) := by
  obtain ⟨s, L, hrun, hL, hexact, hbound⟩ := row_labels
  obtain ⟨H, N, hser, hsel⟩ := select_isDist row_checked.undirected row_positive mem_detourOrder
    hrun hexact hbound
  obtain ⟨F, best, r', hrun', _, hdist⟩ := hsel 0 1 HubLRouter.new (by decide) (by decide)
    (by decide) usable_new
  exact ⟨s, L, H, N, hrun, hL, hser, F, best, r', fun fuel hfuel => (hrun' fuel hfuel).1, hdist⟩

end LabelCreator

end SeaRouter
