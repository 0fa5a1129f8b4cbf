import SeaRouter.Router.DijkstraRouter
import SeaRouter.Router.Pipeline

/-!
# The two routers on one graph

`Agrees` compares the hub label router, on the data that the whole calculation
leaves, with the Dijkstra router.  They do not always agree.  `HLDijkstra` takes
the first edge that a node lists to a neighbour, and the edges of the graph are
listed before the shortcuts.  When an edge is longer than the way between its
ends and no label of the lower end leads along that way, the label of the other
end is too long.

`merge_agrees_iff` says that this is the only reason: the routers agree about
all pairs of nodes exactly when the graph is `Direct` for the levels of its
hierarchy.
-/

namespace SeaRouter

open Java WGraph

namespace LabelCreator

open HubLRouter HubLNodes

variable {I : InputGraph} {n : Nat} {calcOrder : List Int} {s : LabelCreator} {top K : Int}
  {L : Labels} {H : HubLEdges} {N : HubLNodes} {g : Grid}

/-- The merge loop of a request finds a hub if and only if the Dijkstra router finds
a route, and then it selects the distance that the Dijkstra router reports. -/
def Agrees (g : Grid) (H : HubLEdges) (N : HubLNodes) (u v : Int) : Prop :=
  ∀ r q, Usable r → DijkstraRouter.Sized g q → ∃ F best r' result,
    (∀ fuel, F ≤ fuel → select fuel H N r u v = .ok (best, r') ∧
      route fuel H N r u v =
        if best.highestLvlNode = -1 then .ok (RoutingResult.notFound, r')
        else extract fuel H N r' u v best) ∧
    DijkstraRouter.route g q u v = .ok result ∧
    (best.highestLvlNode ≠ -1 ↔ result.routeFound = true) ∧
    (result.routeFound = true → best.currDistance = result.overallDistance)

/-- Behind an edge from a node with labels to one of a higher level that is longer
than the way between the two, some node on such a way has a higher level than the
first one. -/
def Direct (I : InputGraph) (s : LabelCreator) (K : Int) : Prop :=
  ∀ v w l d, K ≤ levelOf s v → levelOf s v < levelOf s w → I.Adj v w l → IsDist I.Adj v w d →
    d < l → ∃ y, OnShortest I.Adj v w y ∧ y ≠ w ∧ levelOf s v < levelOf s y

/-! ## The condition is enough -/

/-- The first node of a higher level on the shortest ways to `w`. -/
theorem exists_nearest (h : Finished I n s top) {v w : Int} {d : Int} (hd : IsDist I.Adj v w d)
    (hlt : levelOf s v < levelOf s w) :
    ∃ x, OnShortest I.Adj v w x ∧ levelOf s v < levelOf s x ∧
      ∀ y, OnShortest I.Adj v x y → y ≠ x → ¬ levelOf s v < levelOf s y := by
  have hnn := h.ranked.nonneg
  have hself : OnShortest I.Adj v w w :=
    ⟨d, 0, hd, isDist_self hnn w, by rw [add_zero]; exact hd⟩
  obtain ⟨m, ⟨x, hx, hup, hm⟩, hleast⟩ := Int.exists_least_of_bdd
    (P := fun m => ∃ x, OnShortest I.Adj v w x ∧ levelOf s v < levelOf s x ∧ IsDist I.Adj v x m)
    ⟨0, fun m hm => by
      obtain ⟨x, _, _, hdist⟩ := hm
      exact hdist.nonneg hnn⟩
    ⟨d, w, hself, hlt, hd⟩
  refine ⟨x, hx, hup, ?_⟩
  intro y hy hne hy'
  obtain ⟨a, b, ha, hb, hab⟩ := hy
  have hle := hleast a ⟨y, (hx.before ⟨a, b, ha, hb, hab⟩).1, hy', ha⟩
  have hpos := hb.1.pos h.adj_pos hne
  have := hm.unique hab
  omega

/-- The first edge listed to a node is one of the graph, if there is one. -/
theorem firstTo_adj (h : Finished I n s top) (hsimple : I.Simple) {v w l e : Int}
    (hadj : I.Adj v w l) (he : HLDijkstra.firstTo s.edges (s.grid.all v) w = some e) :
    s.edges.distOf e = l := by
  obtain ⟨K, hh⟩ := h.hierarchy
  obtain ⟨rest, hall, _⟩ := hh.all v
  have hdest : ∀ e ∈ I.grid.current v, s.edges.destOf e = I.edges.destOf e ∧
      s.edges.distOf e = I.edges.distOf e := by
    intro e he
    obtain ⟨h0, h1, _⟩ := (h.undirected.rows_iff v e).mp he
    have hid := h.undirected.isId_iff.mpr ⟨h0, h1⟩
    exact ⟨hh.extends_.destOf_eq h.undirected.valid hid,
      hh.extends_.distOf_eq h.undirected.valid hid⟩
  obtain ⟨e₀, he₀, hd₀, rfl⟩ := hadj
  have hin : HLDijkstra.firstTo s.edges (I.grid.current v) w = some e := by
    obtain ⟨e₁, he₁⟩ := HLDijkstra.exists_firstTo (E := s.edges) he₀
    rw [(hdest e₀ he₀).1, hd₀] at he₁
    rw [hall, HLDijkstra.firstTo, List.find?_append, ← HLDijkstra.firstTo, he₁, Option.some_or,
      Option.some.injEq] at he
    rw [he₁, he]
  obtain ⟨hmem, hto⟩ := HLDijkstra.firstTo_some hin
  have heq : e = e₀ := by
    have hto' : I.edges.destOf e = I.edges.destOf e₀ := by
      rw [← (hdest e hmem).1, hto, hd₀]
    exact List.inj_on_of_nodup_map (hsimple v) hmem he₀ hto'
  rw [heq, (hdest e₀ he₀).2]

theorem Direct.launches (hdirect : Direct I s K) (h : Finished I n s top) {u : Int}
    (hu : K ≤ levelOf s u) : HLDijkstra.Launches I.Adj s.edges s.grid s.levels u := by
  intro w hwu hhub
  obtain ⟨d, hd⟩ := hhub.joined
  have hlt : levelOf s u < levelOf s w := hhub.rank_lt h.ranked.nonneg (Ne.symm hwu)
  obtain ⟨x, hx, hup, hnear⟩ := exists_nearest h hd hlt
  obtain ⟨⟨a, ha⟩, ⟨b, hb⟩⟩ := hx.isDist
  have hxu : x ≠ u := by
    rintro rfl
    omega
  -- the hop towards `x` leads to `x` itself
  obtain ⟨z, l, c, hUp, hc, hsum⟩ := h.ranked.hop u x a ha hxu (le_of_lt hup)
  have hzx : z = x := by
    by_contra hne
    have hon : OnShortest I.Adj u x z :=
      OnShortest.of_walk (h.ranked.walk u z l hUp) hc.1 (hsum ▸ ha)
    exact hnear z hon hne (h.ranked.up u z l hUp)
  subst hzx
  have hc0 := hc.unique (isDist_self h.ranked.nonneg z)
  obtain ⟨e, he, hdest, hdist, _⟩ := hUp
  obtain ⟨e', he'⟩ := HLDijkstra.exists_firstTo (E := s.edges) he
  rw [hdest] at he'
  obtain ⟨hall, hto⟩ := HLDijkstra.firstTo_some he'
  have hexact : s.edges.distOf e' = a := by
    obtain ⟨Kp, hh⟩ := h.hierarchy
    obtain ⟨rest, hrows, hrest⟩ := hh.all u
    rw [hrows, List.mem_append] at hall
    rcases hall with horig | hshort
    · by_contra hne
      have hadj : I.Adj u z (s.edges.distOf e') := by
        obtain ⟨h0, h1, _⟩ := (h.undirected.rows_iff u e').mp horig
        have hid := h.undirected.isId_iff.mpr ⟨h0, h1⟩
        refine ⟨e', horig, ?_, ?_⟩
        · rw [← hh.extends_.destOf_eq h.undirected.valid hid, hto]
        · rw [hh.extends_.distOf_eq h.undirected.valid hid]
      have hge := ha.2 _ (Walk.single hadj)
      obtain ⟨y, hy, hyz, hyup⟩ := hdirect u z _ a hu hup hadj ha (by omega)
      exact hnear y hy hyz hyup
    · have := (hrest e' hshort).2.2.2.2
      rw [hto] at this
      exact this.unique ha
  refine ⟨z, e', b, ?_, hb, ?_⟩
  · rw [HLDijkstra.ups, firstTo_notDown hup]
    exact he'
  · rw [hexact, hx.add ha hb hd]
    exact hd

/-! ## The condition is necessary -/

/-- Without the condition, the labels of the two ends of some edge have no hub at
the distance of the ends. -/
theorem exists_too_long (h : Finished I n s top) (hsimple : I.Simple)
    (hL : FairLabels I n s K L) (hnot : ¬ Direct I s K) :
    ∃ v w d : Int, v ≠ w ∧ (0 ≤ v ∧ v < n) ∧ (0 ≤ w ∧ w < n) ∧ K ≤ levelOf s v ∧ K ≤ levelOf s w ∧
      IsDist I.Adj v w d ∧
      ∀ x e a e' b, (x, e, a) ∈ entries L v → (x, e', b) ∈ entries L w → a + b ≠ d := by
  unfold Direct at hnot
  push Not at hnot
  obtain ⟨v, w, l, d, hKv, hlt, hadj, hd, hdl, hlow⟩ := hnot
  have hne : w ≠ v := by
    rintro rfl
    omega
  obtain ⟨hv, hw⟩ := h.adj_node hadj
  refine ⟨v, w, d, Ne.symm hne, hv, hw, hKv, by omega, hd, ?_⟩
  intro x e a e' b hx hx' hsum
  have hback := (hL.walk w x e' b hx').reverse h.adj_symm
  have hon : OnShortest I.Adj v w x := OnShortest.of_walk (hL.walk v x e a hx) hback (hsum ▸ hd)
  -- no node on the way has a level above the one of `v`, except `w`
  have hxw : x = w := by
    by_contra hxw
    have h1 := hlow x hon hxw
    have h2 := hL.up w x e' b hx' hxw
    omega
  rw [hxw] at hx hback
  have hb0 := hback.nonneg h.ranked.nonneg
  obtain ⟨hfirst, hup, hrest⟩ := hL.next v w e a hx hne
  have hmem := (HLDijkstra.firstTo_some hfirst).1
  have hrest0 := hrest.nonneg h.ranked.nonneg
  have ha : IsDist I.Adj v w (s.edges.distOf e + (a - s.edges.distOf e)) := by
    have hle := hd.2 _ (hL.walk v w e a hx)
    rw [show s.edges.distOf e + (a - s.edges.distOf e) = d by omega]
    exact hd
  have hdest : s.edges.destOf e = w := by
    by_contra hne'
    have := hlow _ (OnShortest.of_walk (h.walk_all hmem) hrest ha) hne'
    omega
  rw [hdest] at hfirst
  have := firstTo_adj h hsimple hadj hfirst
  omega

/-! ## The comparison -/

/-- The sums that the Dijkstra router forms are ints: of the distance of a node and an
edge from there to a node that is no nearer. -/
def RelaxFits (E : Int → Int → Int → Prop) : Prop :=
  ∀ u v w d l, IsDist E u v d → E v w l → (∀ L, Walk E u w L → d ≤ L) → d + l < MAX_VALUE

theorem RelaxFits.room (hfit : RelaxFits g.HasEdge) (u : Int) : DijkstraRouter.Room g u :=
  fun _ v d w l hd _ _ he hfar => hfit u v w d l hd he hfar

/-- The total length of the edges bounds these sums. -/
theorem relaxFits_of_total (hpos : ∀ l ∈ g.dist, 0 < l) (htotal : g.dist.sum < MAX_VALUE) :
    RelaxFits g.HasEdge := by
  intro u v w d l hd he _
  have hE : ∀ x y m, g.HasEdge x y m → ∃ i ∈ (Finset.univ : Finset (Fin g.dist.length)),
      (g.startNode[i.val]?).getD 0 = x ∧ g.dist[i.val] = m := by
    intro x y m hxy
    obtain ⟨e, hx, _, hm⟩ := hxy
    obtain ⟨hlt, hm⟩ := List.getElem?_eq_some_iff.mp (rd_eq_ok.mp hm).2
    refine ⟨⟨e.toNat, hlt⟩, Finset.mem_univ _, ?_, hm⟩
    rw [(rd_eq_ok.mp hx).2, Option.getD_some]
  have hedge : ∀ x y m, g.HasEdge x y m → 0 < m := by
    intro x y m hxy
    obtain ⟨_, _, _, hm⟩ := hxy
    exact hpos m (mem_of_rd hm)
  calc d + l ≤ ∑ i : Fin g.dist.length, g.dist[i.val] :=
        hd.add_le_sum (fun i _ => le_of_lt (hpos _ (List.getElem_mem i.isLt))) hedge hE he
    _ = g.dist.sum := Fin.sum_univ_getElem g.dist
    _ < MAX_VALUE := htotal

/-- So the distances are ints, by the last edge of a shortest way. -/
theorem RelaxFits.dist_lt {E : Int → Int → Int → Prop} (hfit : RelaxFits E)
    (hnn : ∀ u v l, E u v l → 0 ≤ l) (u v d : Int) (hd : IsDist E u v d) : d < MAX_VALUE := by
  rcases hd.1.exists_last with ⟨_, rfl⟩ | ⟨x, L, l, hL, he, rfl⟩
  · decide
  · have hl := hnn x v l he
    refine hfit u x v L l ⟨hL, ?_⟩ he ?_
    · intro L' hL'
      have := hd.2 _ (hL'.snoc he)
      omega
    · intro L' hL'
      have := hd.2 L' hL'
      omega

/-- The routers agree about every pair of nodes if and only if the graph is `Direct`. -/
theorem merge_agrees_iff (hI : I.Undirected n) (hsimple : I.Simple) (hpos : I.Positive)
    (horder : ∀ u : Int, u ∈ calcOrder ↔ 0 ≤ u ∧ u < n) (hg : g.WellFormed)
    (hnodes : g.nodeCount = n) (hsame : ∀ u v l, g.HasEdge u v l ↔ I.Adj u v l)
    (hnn : ∀ l ∈ g.dist, 0 ≤ l) (hfit : RelaxFits I.Adj) (T K : Nat) (hT : 0 < T) :
    ∃ s L, calculateCH I.edges I.grid n calcOrder = .ok s ∧
      calcLabels T K s.edges s.grid s.levels n (Labels.new n) = .ok L ∧
      ((∀ i : Nat, i < n → ∀ x, x ∈ rowOf L.labelNodes i ∨ x ∈ rowOf L.labelEdges i ∨
          x ∈ rowOf L.labelDist i → IsInt x) →
        ∃ H N, serializeHubLData K s.levels s.edges s.grid L = .ok (H, N) ∧
          ((∀ u v : Int, (0 ≤ u ∧ u < n) → (0 ≤ v ∧ v < n) → u ≠ v → Agrees g H N u v) ↔
            Direct I s K)) := by
  obtain ⟨s, top, hch, hf⟩ := calculateCH_finished hI hpos horder
  obtain ⟨order, m, L, _, _, hseq, _⟩ := hf.calcLabels_done K
  have hrun := hseq T hT
  refine ⟨s, L, hch, hrun, ?_⟩
  intro hint
  have hfair := hf.fairLabels hT hrun hint
  have hbound := hfit.dist_lt hf.ranked.nonneg
  obtain ⟨H, N, hser, hstore⟩ := serializeHubLData_spec hf.gridState hfair.state K
  have hE : g.HasEdge = I.Adj := by
    funext u v l
    exact propext (hsame u v l)
  rw [← hE] at hfit
  have hdijkstra : ∀ (u v : Int) q, (0 ≤ u ∧ u < n) → DijkstraRouter.Sized g q →
      ∃ result, DijkstraRouter.route g q u v = .ok result ∧
        (result.routeFound = true ↔ ∃ l, Walk I.Adj u v l) ∧
        (result.routeFound = true → IsDist I.Adj u v result.overallDistance) := by
    intro u v q hu hq
    obtain ⟨result, hroute, hfound, hdist⟩ := DijkstraRouter.route_of_room hg hnn
      (s := u) (t := v) (hfit.room u) hq ⟨hu.1, by rw [hnodes]; exact hu.2⟩
    rw [hE] at hfound hdist
    exact ⟨result, hroute, hfound, fun hr => (hdist hr).1⟩
  refine ⟨H, N, hser, ?_, ?_⟩
  · intro hagree
    by_contra hnot
    obtain ⟨u, v, d, hne, hu, hv, hKu, hKv, hd, hlong⟩ := exists_too_long hf hsimple hfair hnot
    have hlab := labelled_iff hstore
    obtain ⟨i, rfl⟩ : ∃ i : Nat, u = i := ⟨u.toNat, by omega⟩
    obtain ⟨j, rfl⟩ : ∃ j : Nat, v = j := ⟨v.toNat, by omega⟩
    obtain ⟨e, he⟩ := hfair.self i hu hKu
    obtain ⟨e', he'⟩ := hfair.self j hv hKv
    obtain ⟨best, hbest, his⟩ := select_labelled (H := H)
      (Stores.labelArrays hf.upward.levelsLength hstore) hfair.sorted (u := i) (v := j) (by omega)
      (by omega) ((hlab i).2.mpr hKu) ((hlab j).2.mpr hKv) (List.ne_nil_of_mem he)
      (List.ne_nil_of_mem he') HubLRouter.new
    obtain ⟨F, best', r', result, hsel, hroute, hfound, hdist⟩ := hagree i j hu hv hne
      HubLRouter.new (DijkstraRouter.new g) usable_new (DijkstraRouter.sized_new g)
    have hsame' := (hbest F).symm.trans (hsel F (le_refl F)).1
    simp only [Except.ok.injEq, Prod.mk.injEq] at hsame'
    obtain ⟨rfl, _⟩ := hsame'
    obtain ⟨result', hroute', hfound', hdist'⟩ := hdijkstra i j _ hu (DijkstraRouter.sized_new g)
    obtain rfl : result = result' := Except.ok.inj (hroute.symm.trans hroute')
    have hyes : result.routeFound = true := hfound'.mpr ⟨d, hd.1⟩
    have heq : best.currDistance = d := (hdist hyes).trans ((hdist' hyes).unique hd)
    rcases his.found with rfl | ⟨i', j', x, a, b, hi', hj', _, rfl⟩
    · exact hfound.mpr hyes rfl
    · obtain ⟨e₁, he₁⟩ := mem_hubs.mp (List.mem_of_getElem? hi')
      obtain ⟨e₂, he₂⟩ := mem_hubs.mp (List.mem_of_getElem? hj')
      exact hlong x e₁ a e₂ b he₁ he₂ heq
  · intro hdirect u v hu hv hne r q hr hq
    have hexact := (hf.exactLabels hT (fun u _ hKu => hdirect.launches hf hKu) hrun hint).1
    obtain ⟨F, best, r', hrun', hnone, hdist⟩ := hf.selection hexact hstore hbound hu hv hr
    obtain ⟨result, hroute, hfound, hdist'⟩ := hdijkstra u v q hu hq
    refine ⟨F, best, r', result, hrun', hroute, ?_, ?_⟩
    · rw [hfound, ne_eq, hnone, not_not]
    · intro hyes
      have hhub : best.highestLvlNode ≠ -1 := by
        rw [ne_eq, hnone, not_not]
        exact hfound.mp hyes
      exact (hdist hhub).unique (hdist' hyes)

/-- The graph in the arrays of `Grid` and `Edge`. -/
def dijkstraGrid (I : InputGraph) (n : Nat) : Grid where
  nodeCount := n
  startNode := I.start
  destNode := I.dest
  dist := I.dist
  offset := (List.range (n + 1)).map fun v : Nat => (I.start.countP (· < (v : Int)) : Int)

theorem hasEdge_dijkstraGrid (hI : I.Undirected n) (u v l : Int) :
    (dijkstraGrid I n).HasEdge u v l ↔ I.Adj u v l := by
  have hread : ∀ e : Int, 0 ≤ e → e < I.dest.length →
      rd I.start e = .ok (I.edges.startOf e) ∧ rd I.dest e = .ok (I.edges.destOf e) ∧
        rd I.dist e = .ok (I.edges.distOf e) := by
    intro e h0 h1
    have hedge := hI.valid.isEdge (hI.isId_iff.mpr ⟨h0, h1⟩)
    have hlt : e < I.edges.numOfOriginalEdges := h1
    have hstart := hedge.start
    have hdest := hedge.dest
    have hdist := hedge.dist
    rw [Edges.getStart, if_pos hlt] at hstart
    rw [Edges.getDest, if_pos hlt] at hdest
    rw [Edges.getDist, if_pos hlt] at hdist
    exact ⟨hstart, hdest, hdist⟩
  constructor
  · intro h
    obtain ⟨e, hu, hv, hl⟩ := h
    have hb := rd_bounds hv
    obtain ⟨h1, h2, h3⟩ := hread e hb.1 hb.2
    have hu' := Except.ok.inj (h1.symm.trans hu)
    exact ⟨e, (hI.rows_iff u e).mpr ⟨hb.1, hb.2, hu'⟩, Except.ok.inj (h2.symm.trans hv),
      Except.ok.inj (h3.symm.trans hl)⟩
  · intro h
    obtain ⟨e, he, rfl, rfl⟩ := h
    obtain ⟨h0, h1, rfl⟩ := (hI.rows_iff u e).mp he
    exact ⟨e, hread e h0 h1⟩

/-- The data of the router, through all steps of its calculation. -/
def hubLData (I : InputGraph) (n : Nat) (calcOrder : List Int) (T K : Nat) :
    Run (LabelCreator × Labels × HubLEdges × HubLNodes) := do
  let s ← calculateCH I.edges I.grid n calcOrder
  let L ← calcLabels T K s.edges s.grid s.levels n (Labels.new n)
  let (H, N) ← serializeHubLData K s.levels s.edges s.grid L
  return (s, L, H, N)

theorem merge_agrees_iff_row :
    ∃ s L H N, calculateCH row.edges row.grid 3 [1, 0, 2] = .ok s ∧
      calcLabels NUM_OF_THREADS 0 s.edges s.grid s.levels 3 (Labels.new 3) = .ok L ∧
      serializeHubLData (0 : Nat) s.levels s.edges s.grid L = .ok (H, N) ∧
      ((∀ u v : Int, (0 ≤ u ∧ u < (3 : Nat)) → (0 ≤ v ∧ v < (3 : Nat)) → u ≠ v →
        Agrees (dijkstraGrid row 3) H N u v) ↔ Direct row s (0 : Nat)) := by
  have hE : (dijkstraGrid row 3).HasEdge = row.Adj := by
    funext u v l
    exact propext (hasEdge_dijkstraGrid row_checked.undirected u v l)
  have hfit : RelaxFits row.Adj := by
    rw [← hE]
    exact relaxFits_of_total (by decide +kernel) (by decide +kernel)
  obtain ⟨s, L, hch, hlab, hiff⟩ := merge_agrees_iff row_checked.undirected
    (row_checked.simple (by decide +kernel)) row_positive mem_detourOrder
    (g := dijkstraGrid row 3)
    ⟨rfl, by decide +kernel, by decide +kernel, by decide +kernel,
      by unfold Grid.IsNode; decide +kernel, by unfold Grid.IsNode; decide +kernel⟩
    rfl (hasEdge_dijkstraGrid row_checked.undirected) (by decide +kernel) hfit
    NUM_OF_THREADS 0 (by decide)
  obtain ⟨⟨s', L', H', N'⟩, hrun, hint⟩ := exists_of_map_toOption
    (x := hubLData row 3 [1, 0, 2] NUM_OF_THREADS 0) (p := fun r => intLabels 3 r.2.1)
    (by decide +kernel)
  simp only [hubLData, bind_eq_ok, pure_eq_ok, Except.ok.injEq, Prod.mk.injEq] at hrun
  obtain ⟨s₁, hch₁, L₁, hlab₁, _, _, rfl, rfl, rfl, rfl⟩ := hrun
  obtain rfl : s = s₁ := Except.ok.inj (hch.symm.trans hch₁)
  obtain rfl : L = L₁ := Except.ok.inj (hlab.symm.trans hlab₁)
  obtain ⟨H, N, hser, hagree⟩ := hiff (isInt_of_intLabels hint)
  exact ⟨s, L, H, N, hch, hlab, hser, hagree⟩

/-- The edge from 0 to 2 is longer than the way over 1, which is contracted first.
The routers find the distances 10 and 2. -/
theorem detour_not_agrees : ∃ s L H N,
    calculateCH detour.edges detour.grid 3 [1, 0, 2] = .ok s ∧
    calcLabels NUM_OF_THREADS 0 s.edges s.grid s.levels 3 (Labels.new 3) = .ok L ∧
    serializeHubLData (0 : Nat) s.levels s.edges s.grid L = .ok (H, N) ∧
    ¬ Agrees (dijkstraGrid detour 3) H N 0 2 := by
  obtain ⟨⟨s, L, H, N⟩, hrun, hcheck⟩ := exists_of_map_toOption
    (x := hubLData detour 3 [1, 0, 2] NUM_OF_THREADS 0)
    (p := fun r => r.2.2.2.nodeHasLabels 0 == .ok true && r.2.2.2.nodeHasLabels 2 == .ok true &&
      (select 0 r.2.2.1 r.2.2.2 HubLRouter.new 0 2).toOption.map
        (fun b => b.1.currDistance) == some 10)
    (by decide +kernel)
  simp only [Bool.and_eq_true, beq_iff_eq] at hcheck
  obtain ⟨⟨h0, h2⟩, hsel⟩ := hcheck
  simp only [hubLData, bind_eq_ok, pure_eq_ok, Except.ok.injEq, Prod.mk.injEq] at hrun
  obtain ⟨s', hch, L', hlab, ⟨H', N'⟩, hser, rfl, rfl, rfl, rfl⟩ := hrun
  refine ⟨s', L', H', N', hch, hlab, hser, ?_⟩
  intro hagree
  obtain ⟨F, best, r', result, hbest, hroute, _, hdist⟩ := hagree HubLRouter.new
    (DijkstraRouter.new (dijkstraGrid detour 3)) usable_new (DijkstraRouter.sized_new _)
  have hfuel : select 0 H' N' HubLRouter.new 0 2 = select F H' N' HubLRouter.new 0 2 := by
    simp only [select, h0, h2, ok_bind, Bool.and_self, if_true]
  rw [hfuel, (hbest F (le_refl F)).1] at hsel
  have hten : best.currDistance = 10 := by
    rw [Except.toOption, Option.map_some, Option.some.injEq] at hsel
    exact hsel
  have htwo : DijkstraRouter.route (dijkstraGrid detour 3)
      (DijkstraRouter.new (dijkstraGrid detour 3)) 0 2 = .ok (RoutingResult.found [0, 1, 2] 2) := by
    decide +kernel
  rw [htwo, Except.ok.injEq] at hroute
  subst hroute
  have := hdist rfl
  rw [hten] at this
  exact absurd this (by decide)

end LabelCreator

end SeaRouter
