import SeaRouter.Router.Agreement
import SeaRouter.Router.LabelSums
import SeaRouter.Router.Reuse
import SeaRouter.Router.SideEdges

/-!
# Requests on the calculated data

`calculateCH`, `calcLabels` and `serializeHubLData` one after the other leave the data
of the router, and a router answers any number of requests on it.

* `Finished.routeData`: that data is what a request relies on.
* `route_answers_iff`: when all levels have labels, every request gets a shortest path
  if and only if the graph is `Direct`.
* `route_measures`: when the lowest level has none, the requests still get the right
  distances.
-/

namespace SeaRouter

open Java WGraph

/-- A chain of original edges is a path of the graph. -/
theorem Edges.IsChain.isPath {E : Edges} {G : Int → Int → Int → Prop} {l : List Int} {u v d : Int}
    (h : E.IsChain l u v d)
    (hG : ∀ e, 0 ≤ e → e < E.numOfOriginalEdges → G (E.startOf e) (E.destOf e) (E.distOf e)) :
    IsPath G (u :: l.map E.destOf) u v d := by
  induction h with
  | nil u => exact IsPath.nil u
  | cons h0 h1 _ ih => exact IsPath.cons (hG _ h0 h1) ih

namespace HubLRouter

/-- A router answers any two nodes, after any earlier calls, as `P` says. -/
def Serves (n : Nat) (H : HubLEdges) (N : HubLNodes) (P : Int → Int → RoutingResult → Prop) :
    Prop :=
  ∀ (s t : Int) (r : HubLRouter), (0 ≤ s ∧ s < n) → (0 ≤ t ∧ t < n) → Used H N r →
    ∃ F result, P s t result ∧ ∀ fuel, F ≤ fuel → ∃ r', route fuel H N r s t = .ok (result, r')

variable {n : Nat} {H : HubLEdges} {N : HubLNodes} {P : Int → Int → RoutingResult → Prop}

/-- It is enough to look at a new router. -/
theorem serves_of_new (hd : NodeIds H N) (h : ∀ s t : Int, (0 ≤ s ∧ s < n) → (0 ≤ t ∧ t < n) →
    ∃ F result, P s t result ∧
      ∀ fuel, F ≤ fuel → ∃ r', route fuel H N HubLRouter.new s t = .ok (result, r')) :
    Serves n H N P := by
  intro s t r hs ht hr
  obtain ⟨F, result, hP, hrun⟩ := h s t hs ht
  refine ⟨F, result, hP, ?_⟩
  intro fuel hfuel
  obtain ⟨r', hr'⟩ := hrun fuel hfuel
  obtain ⟨b, hb, hab⟩ := (route_agree hd fuel sane_new (hr.sane hd) s t).exists_right hr'
  cases hab with
  | @mk _ _ r'' _ _ => exact ⟨r'', hb⟩

/-- The result has the selected distance. -/
theorem finish_result {fuel : Nat} {r r' : HubLRouter} {s t d : Int} {result : RoutingResult}
    (h : finish fuel H r s t d = .ok (result, r')) :
    ∃ path, result = RoutingResult.found path d := by
  simp only [finish, bind_eq_ok, pure_eq_ok, Except.ok.injEq, Prod.mk.injEq] at h
  obtain ⟨_, _, ⟨path, _⟩, _, hresult, _⟩ := h
  exact ⟨path, hresult.symm⟩

theorem extract_result {fuel : Nat} {r r' : HubLRouter} {s t : Int} {best : Selection}
    {result : RoutingResult} (h : extract fuel H N r s t best = .ok (result, r')) :
    ∃ path, result = RoutingResult.found path best.currDistance := by
  simp only [extract, bind_eq_ok] at h
  obtain ⟨a, _, b, _, h⟩ := h
  split_ifs at h <;>
    (simp only [bind_eq_ok] at h; obtain ⟨_, _, _, _, h⟩ := h; exact finish_result h)

end HubLRouter

namespace LabelCreator

open HubLRouter HubLNodes

variable {I : InputGraph} {n : Nat} {calcOrder : List Int} {s : LabelCreator} {top K : Int}
  {L : Labels} {H : HubLEdges} {N : HubLNodes}

/-- An edge of the hierarchy stands for a path of the graph. -/
theorem Finished.leads (h : Finished I n s top) (hH : HubLEdges.Copies s.edges H) {u e : Int}
    (he : e ∈ s.grid.all u) : Leads H I.Adj e u (s.edges.destOf e) (s.edges.distOf e) := by
  obtain ⟨K, hh⟩ := h.hierarchy
  obtain ⟨_, hid, hstart, _⟩ := hh.edge_all h.undirected he
  obtain ⟨hdest, hdist⟩ := h.store_edge hH he
  obtain ⟨ls, k, hexp, hchain⟩ := exists_expands hh.consistent.valid hH hh.parts e.toNat e rfl hid
  have hmap : ls.map (destOf H) = ls.map s.edges.destOf := by
    apply List.map_congr_left
    intro x hx
    obtain ⟨hx0, hx1⟩ := hchain.original x hx
    rw [destOf, hH.dest x ⟨hx0, lt_of_lt_of_le hx1 hh.consistent.valid.orig_le_next⟩]
    rfl
  have hadj : ∀ e, 0 ≤ e → e < s.edges.numOfOriginalEdges →
      I.Adj (s.edges.startOf e) (s.edges.destOf e) (s.edges.distOf e) := by
    intro e h0 h1
    rw [hh.extends_.orig] at h1
    have hid : I.edges.IsId e := ⟨h0, h1⟩
    rw [hh.extends_.startOf_eq h.undirected.valid hid, hh.extends_.destOf_eq h.undirected.valid hid,
      hh.extends_.distOf_eq h.undirected.valid hid]
    exact ⟨e, (h.undirected.rows_iff _ e).mpr ⟨h0, h1, rfl⟩, rfl, rfl⟩
  refine ⟨hdest, hdist, ls, k, hexp, ?_⟩
  rw [hmap]
  rw [hstart] at hchain
  exact hchain.isPath hadj

/-- The edges that are stored for a node without labels. -/
theorem mem_storedEdges (hstore : Stores n K s.levels s.edges s.grid L H N) {u e : Int}
    (hu : ¬ Labelled N u) : e ∈ storedEdges s.edges s.grid s.levels K u ↔
      e ∈ s.grid.all u ∧ levelOf s u < levelOf s (s.edges.destOf e) := by
  have hlow : ¬ K ≤ HLDijkstra.level s.levels u :=
    fun hle => hu ((labelled_iff hstore u).2.mpr hle)
  rw [storedEdges, if_neg hlow, List.mem_filter, decide_eq_true_iff]
  exact Iff.rfl

/-- The data that the calculation leaves is what a request relies on. -/
theorem Finished.routeData (h : Finished I n s top) {T K : Nat} (hT : 0 < T)
    (hlaunch : ∀ u : Int, (0 ≤ u ∧ u < n) → K ≤ levelOf s u →
      HLDijkstra.Launches I.Adj s.edges s.grid s.levels u)
    (hrun : calcLabels T K s.edges s.grid s.levels n (Labels.new n) = .ok L)
    (hint : HoldsInts n L) (hstore : Stores n K s.levels s.edges s.grid L H N)
    (hbound : ∀ u v d, IsDist I.Adj u v d → d < MAX_VALUE) :
    RouteData I.Adj n H N (storedEdges s.edges s.grid s.levels K) (entries L) := by
  obtain ⟨hL, hnext⟩ := h.exactLabels hT hlaunch hrun hint
  have hcut := h.cutData hL hstore hbound
  have hlab := labelled_iff hstore
  refine ⟨hcut, ?_, ?_⟩
  · refine ⟨hcut.arrays, hcut.symm, hcut.nonneg, hcut.bound, hcut.sorted, hcut.hub, hcut.exact, ?_, ?_,
      hcut.node⟩
    · intro u v d hu hv hne hd
      obtain ⟨hu', hv'⟩ := h.walk_node hd.1 (Ne.symm hne)
      exact hcut.cover u v d hu' hv' hu hv hd
    · intro v g e d hmem hne
      obtain ⟨hall, hlt, e', hmem'⟩ := hnext v g d e hmem hne
      refine ⟨_, _, e', h.leads hstore.copies hall, ?_, hmem'⟩
      rw [(hlab v).1, (hlab _).1]
      exact hlt
  · intro u e hu he
    exact ⟨_, _, h.leads hstore.copies ((mem_storedEdges hstore hu).mp he).1⟩

theorem Finished.nodeIds (h : Finished I n s top) (hL : ExactLabels I n s K L)
    (hstore : Stores n K s.levels s.edges s.grid L H N)
    (hbound : ∀ u v d, IsDist I.Adj u v d → d < MAX_VALUE) : NodeIds H N := by
  apply (h.cutData hL hstore hbound).nodeIds
  intro v hv
  exact if_pos ((labelled_iff hstore v).2.mp hv)

/-! ## Labels for all levels -/

/-- What a request between two nodes returns whose labels have no hub at their
distance. -/
theorem Finished.not_answers (h : Finished I n s top) (hL : FairLabels I n s K L)
    (hstore : Stores n K s.levels s.edges s.grid L H N) {u v : Nat} {d : Int} (hu : u < n)
    (hv : v < n) (hKu : K ≤ levelOf s u) (hKv : K ≤ levelOf s v) (hd : IsDist I.Adj u v d)
    (hlong : ∀ x e a e' b, (x, e, a) ∈ entries L u → (x, e', b) ∈ entries L v → a + b ≠ d)
    {fuel : Nat} {r r' : HubLRouter} {result : RoutingResult}
    (hrun : route fuel H N r u v = .ok (result, r')) : ¬ Answers I.Adj u v result := by
  intro hans
  have hlab := labelled_iff hstore
  obtain ⟨e, he⟩ := hL.self u (by omega) hKu
  obtain ⟨e', he'⟩ := hL.self v (by omega) hKv
  obtain ⟨best, hsel, hbest⟩ := select_labelled (H := H)
    (Stores.labelArrays h.upward.levelsLength hstore) hL.sorted hu hv ((hlab u).2.mpr hKu)
    ((hlab v).2.mpr hKv) (List.ne_nil_of_mem he) (List.ne_nil_of_mem he') r
  rw [route_eq, hsel fuel, ok_bind] at hrun
  simp only at hrun
  split_ifs at hrun with hnone
  · simp only [pure_eq_ok, Except.ok.injEq, Prod.mk.injEq] at hrun
    obtain ⟨rfl, _⟩ := hrun
    exact hans.1.mp rfl ⟨d, hd.1⟩
  · obtain ⟨path, rfl⟩ := extract_result hrun
    have heq : best.currDistance = d := (hans.2 rfl).1.unique hd
    rcases hbest.found with rfl | ⟨i, j, x, a, b, hi, hj, _, rfl⟩
    · exact hnone rfl
    · obtain ⟨e₁, he₁⟩ := mem_hubs.mp (List.mem_of_getElem? hi)
      obtain ⟨e₂, he₂⟩ := mem_hubs.mp (List.mem_of_getElem? hj)
      exact hlong x e₁ a e₂ b he₁ he₂ heq

/-- When the graph is `Direct`, the labels of all nodes lead along shortest ways. -/
theorem Finished.serves (h : Finished I n s top) {T : Nat} (hT : 0 < T)
    (hdirect : Direct I s (0 : Nat))
    (hrun : calcLabels T 0 s.edges s.grid s.levels n (Labels.new n) = .ok L) (hint : HoldsInts n L)
    (hstore : Stores n (0 : Nat) s.levels s.edges s.grid L H N)
    (hbound : ∀ u v d, IsDist I.Adj u v d → d < MAX_VALUE) : Serves n H N (Answers I.Adj) := by
  have hlaunch : ∀ u : Int, (0 ≤ u ∧ u < n) → ((0 : Nat) : Int) ≤ levelOf s u →
      HLDijkstra.Launches I.Adj s.edges s.grid s.levels u :=
    fun u _ hu => hdirect.launches h hu
  have hd := h.routeData hT hlaunch hrun hint hstore hbound
  apply serves_of_new (h.nodeIds (h.exactLabels hT hlaunch hrun hint).1 hstore hbound)
  intro u v hu hv
  have hlab : ∀ w : Int, (0 ≤ w ∧ w < n) → Labelled N w := by
    intro w hw
    exact (labelled_iff hstore w).2.mpr (h.level_bounds hw.1 hw.2).1
  obtain ⟨F, result, _, hans, hroute⟩ := route_returns hd hu hv
    (fun hno => absurd (hlab u hu) hno) (fun hno => absurd (hlab v hv) hno) usable_new
  exact ⟨F, result, hans (hlab u hu) (hlab v hv), hroute⟩

/-- When all levels have labels, a router answers every request with a shortest path,
whatever requests came before it, if and only if the graph is `Direct`. -/
theorem route_answers_iff (hI : I.Undirected n) (hsimple : I.Simple) (hpos : I.Positive)
    (horder : ∀ u : Int, u ∈ calcOrder ↔ 0 ≤ u ∧ u < n) (hfit : SumsFit I n calcOrder) (T : Nat)
    (hT : 0 < T) :
    ∃ s L H N, calculateCH I.edges I.grid n calcOrder = .ok s ∧
      calcLabels T 0 s.edges s.grid s.levels n (Labels.new n) = .ok L ∧
      serializeHubLData (0 : Nat) s.levels s.edges s.grid L = .ok (H, N) ∧
      (Serves n H N (Answers I.Adj) ↔ Direct I s (0 : Nat)) := by
  obtain ⟨s, top, hch, hf⟩ := calculateCH_finished hI hpos horder
  obtain ⟨order, m, L, _, _, hseq, _⟩ := hf.calcLabels_done 0
  have hrun := hseq T hT
  have hint := hf.holdsInts (hfit s hch) hT hrun
  have hfair := hf.fairLabels hT hrun hint
  obtain ⟨H, N, hser, hstore⟩ := serializeHubLData_spec hf.gridState hfair.state (0 : Nat)
  refine ⟨s, L, H, N, hch, hrun, hser, ?_, ?_⟩
  · intro hserves
    by_contra hnot
    obtain ⟨u, v, d, _, hu, hv, hKu, hKv, hd, hlong⟩ := exists_too_long hf hsimple hfair hnot
    obtain ⟨i, rfl⟩ : ∃ i : Nat, u = i := ⟨u.toNat, by omega⟩
    obtain ⟨j, rfl⟩ : ∃ j : Nat, v = j := ⟨v.toNat, by omega⟩
    obtain ⟨F, result, hans, hroute⟩ := hserves i j HubLRouter.new hu hv Used.start
    obtain ⟨r', hr'⟩ := hroute F (le_refl F)
    exact hf.not_answers hfair hstore (by omega) (by omega) hKu hKv hd hlong hr' hans
  · exact fun hdirect => hf.serves hT hdirect hrun hint hstore (hf.isDist_lt (hfit s hch))

theorem row_sumsFit : SumsFit row 3 [1, 0, 2] := sumsFit_of_run (by decide +kernel)

theorem route_answers_iff_row :
    ∃ s L H N, calculateCH row.edges row.grid 3 [1, 0, 2] = .ok s ∧
      calcLabels NUM_OF_THREADS 0 s.edges s.grid s.levels 3 (Labels.new 3) = .ok L ∧
      serializeHubLData (0 : Nat) s.levels s.edges s.grid L = .ok (H, N) ∧
      (Serves 3 H N (Answers row.Adj) ↔ Direct row s (0 : Nat)) :=
  route_answers_iff row_checked.undirected (row_checked.simple (by decide +kernel)) row_positive
    mem_detourOrder row_sumsFit NUM_OF_THREADS (by decide)

/-! ## A level without labels -/

/-- No edge is longer than another way between its ends. -/
def Metric (I : InputGraph) : Prop := ∀ u v l, I.Adj u v l → IsDist I.Adj u v l

theorem Metric.direct (h : Metric I) (s : LabelCreator) (K : Int) : Direct I s K := by
  intro v w l d _ _ hadj hd hlt
  have := hd.unique (h v w l hadj)
  omega

/-- The edges that are stored for the nodes of the lowest level are shortest ways, and
lead to nodes with labels. -/
theorem Finished.tidy (h : Finished I n s top) (hmetric : Metric I) (hK : K ≤ 1)
    (hstore : Stores n K s.levels s.edges s.grid L H N) {x : Int} (hx : ¬ Labelled N x) :
    Tidy I.Adj H N (storedEdges s.edges s.grid s.levels K) x := by
  obtain ⟨Kp, hh⟩ := h.hierarchy
  intro w a hw hdist
  have hwalk := hdist.1
  cases hwalk with
  | nil => exact absurd hw hx
  | @cons _ y _ l b hs hrest =>
    obtain ⟨_, e, he, hdest, hlen⟩ := hs
    obtain ⟨hall, hup⟩ := (mem_storedEdges hstore hx).mp he
    obtain ⟨hx', _, _, _⟩ := hh.edge_all h.undirected hall
    obtain ⟨hdest', hlen'⟩ := h.store_edge hstore.copies hall
    obtain rfl : y = s.edges.destOf e := Except.ok.inj (hdest.symm.trans hdest')
    obtain rfl : l = s.edges.distOf e := Except.ok.inj (hlen.symm.trans hlen')
    -- the edge leads above the lowest level, and there the search ends
    have hy : Labelled N (s.edges.destOf e) := by
      have h0 := (h.level_bounds hx'.1 hx'.2).1
      apply (labelled_iff hstore _).2.mpr
      omega
    obtain ⟨rfl, rfl⟩ := CutData.stored_labelled hy hrest
    rw [add_zero]
    obtain ⟨rest, hrows, hshort⟩ := hh.all x
    rw [hrows, List.mem_append] at hall
    rcases hall with hold | hnew
    · apply hmetric
      obtain ⟨h0, h1, _⟩ := (h.undirected.rows_iff x e).mp hold
      have hid := h.undirected.isId_iff.mpr ⟨h0, h1⟩
      exact ⟨e, hold, (hh.extends_.destOf_eq h.undirected.valid hid).symm,
        (hh.extends_.distOf_eq h.undirected.valid hid).symm⟩
    · exact (hshort e hnew).2.2.2.2

/-- With labels for all levels, or for all but the lowest one, every request ends
without an exception and with the right distance, when no edge of the graph is longer
than another way between its ends.  Between nodes with labels it gets a shortest
path. -/
theorem route_measures (hI : I.Undirected n) (hpos : I.Positive)
    (horder : ∀ u : Int, u ∈ calcOrder ↔ 0 ≤ u ∧ u < n) (hmetric : Metric I)
    (hfit : SumsFit I n calcOrder) (T K : Nat) (hT : 0 < T) (hK : K ≤ 1) :
    ∃ s L H N, calculateCH I.edges I.grid n calcOrder = .ok s ∧
      calcLabels T K s.edges s.grid s.levels n (Labels.new n) = .ok L ∧
      serializeHubLData K s.levels s.edges s.grid L = .ok (H, N) ∧
      Serves n H N fun u v result => Measures I.Adj u v result ∧
        (K ≤ levelOf s u → K ≤ levelOf s v → Answers I.Adj u v result) := by
  obtain ⟨s, top, hch, hf⟩ := calculateCH_finished hI hpos horder
  obtain ⟨order, m, L, _, _, hseq, _⟩ := hf.calcLabels_done K
  have hrun := hseq T hT
  have hint := hf.holdsInts (hfit s hch) hT hrun
  have hbound := hf.isDist_lt (hfit s hch)
  have hfair := hf.fairLabels hT hrun hint
  obtain ⟨H, N, hser, hstore⟩ := serializeHubLData_spec hf.gridState hfair.state K
  refine ⟨s, L, H, N, hch, hrun, hser, ?_⟩
  have hlaunch : ∀ u : Int, (0 ≤ u ∧ u < n) → (K : Int) ≤ levelOf s u →
      HLDijkstra.Launches I.Adj s.edges s.grid s.levels u :=
    fun u _ hu => (hmetric.direct s K).launches hf hu
  have hd := hf.routeData hT hlaunch hrun hint hstore hbound
  apply serves_of_new (hf.nodeIds (hf.exactLabels hT hlaunch hrun hint).1 hstore hbound)
  intro u v hu hv
  obtain ⟨F, result, hmeasures, hans, hroute⟩ := route_returns hd hu hv
    (hf.tidy hmetric (by omega) hstore) (hf.tidy hmetric (by omega) hstore) usable_new
  refine ⟨F, result, ⟨hmeasures, ?_⟩, hroute⟩
  intro hKu hKv
  exact hans ((labelled_iff hstore u).2.mpr hKu) ((labelled_iff hstore v).2.mpr hKv)

/-- All edges of the row have the length 1. -/
theorem row_metric : Metric row := by
  obtain ⟨_, _, _, hf⟩ := calculateCH_finished row_checked.undirected row_positive mem_detourOrder
  intro u v l hadj
  refine ⟨Walk.single hadj, ?_⟩
  obtain ⟨e, he, rfl, rfl⟩ := hadj
  obtain ⟨h0, h1, rfl⟩ := (hf.undirected.rows_iff u e).mp he
  have hone : ∀ l ∈ row.dist, l = 1 := by decide +kernel
  rw [hone _ (hf.undirected.distOf_mem h0 h1)]
  intro L' hw
  have := hw.pos hf.adj_pos (Ne.symm (hf.undirected.node e h0 h1).2.2)
  omega

theorem route_measures_row :
    ∃ s L H N, calculateCH row.edges row.grid 3 [1, 0, 2] = .ok s ∧
      calcLabels NUM_OF_THREADS 1 s.edges s.grid s.levels 3 (Labels.new 3) = .ok L ∧
      serializeHubLData (1 : Nat) s.levels s.edges s.grid L = .ok (H, N) ∧
      Serves 3 H N fun u v result => Measures row.Adj u v result ∧
        ((1 : Nat) ≤ levelOf s u → (1 : Nat) ≤ levelOf s v → Answers row.Adj u v result) :=
  route_measures row_checked.undirected row_positive mem_detourOrder row_metric row_sumsFit
    NUM_OF_THREADS 1 (by decide) (by decide)

end LabelCreator

end SeaRouter
