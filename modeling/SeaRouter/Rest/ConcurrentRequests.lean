import SeaRouter.Rest.RoutingController
import SeaRouter.Router.HubLData

/-!
# Requests at the same time, when all nodes have labels

With labels for all levels, as `LabelCreator` leaves them, a request only reads the data
of the router until it extracts its path, and it leaves the stacks empty.  So the requests
that share a router cannot disturb each other, as long as the extraction of a path is
one step: `getRoute_answers`.
-/

namespace SeaRouter

open Java WGraph

namespace HubLRouter

variable {G : Int → Int → Int → Prop} {n : Nat} {H : HubLEdges} {N : HubLNodes}
  {ups : Int → List Int} {ent : Int → List (Int × Int × Int)}

/-- A request between two nodes with labels gets a shortest path, whatever other such
requests do to the router between its steps. -/
theorem RouteData.returns_route (hd : RouteData G n H N ups ent) {s t : Int} (hs : 0 ≤ s ∧ s < n)
    (ht : 0 ≤ t ∧ t < n) (hls : Labelled N s) (hlt : Labelled N t) :
    ∃ F result, Answers G s t result ∧
      ∀ fuel, F ≤ fuel → (Request.route fuel H N s t).Returns Calm result := by
  have hhs := hd.cut.nodeHasLabels hs.1 hs.2
  have hht := hd.cut.nodeHasLabels ht.1 ht.2
  rw [decide_eq_true hls] at hhs
  rw [decide_eq_true hlt] at hht
  obtain ⟨F, result, _, hans, hrun⟩ := route_returns hd hs ht (absurd hls) (absurd hlt) usable_new
  refine ⟨F, result, hans hls hlt, ?_⟩
  intro fuel hfuel
  obtain ⟨r', hr'⟩ := hrun fuel hfuel
  exact Request.returns_route hhs hht hr'

end HubLRouter

namespace RoutingController

open HubLRouter HubLNodes LabelCreator

variable {δ ι : Type} {G : Int → Int → Int → Prop} {n : Nat} {H : HubLEdges} {N : HubLNodes}
  {ups : Int → List Int} {ent : Int → List (Int × Int × Int)}

/-- The response that a request should get, when `P` is what the result between two
nodes should be. -/
def Responds (P : Int → Int → RoutingResult → Prop) (nearest : δ → δ → Int)
    (rq : RoutingRequest δ) (response : ResponseEntity) : Prop :=
  let startNodeId := nearest rq.startPoint.latitude rq.startPoint.longitude
  let destNodeId := nearest rq.endPoint.latitude rq.endPoint.longitude
  if startNodeId < 0 then response = .badRequest "Start position is not on the ocean!"
  else if destNodeId < 0 then response = .badRequest "Destination position is not on the ocean!"
  else if startNodeId = destNodeId then
    response = .badRequest "Destination position is equal to start position!"
  else ∃ result, P startNodeId destNodeId result ∧ response = .ok result

/-- One number of iterations is enough for any two of the nodes. -/
theorem exists_uniform {P : Int → Int → Nat → Prop}
    (hmono : ∀ s t F F', F ≤ F' → P s t F → P s t F')
    (h : ∀ s t : Int, (0 ≤ s ∧ s < n) → (0 ≤ t ∧ t < n) → ∃ F, P s t F) :
    ∃ F, ∀ s t : Int, (0 ≤ s ∧ s < n) → (0 ≤ t ∧ t < n) → P s t F := by
  have hnat : ∀ s t : Nat, ∃ F, s < n → t < n → P s t F := by
    intro s t
    by_cases hst : s < n ∧ t < n
    · obtain ⟨F, hF⟩ := h s t (by omega) (by omega)
      exact ⟨F, fun _ _ => hF⟩
    · exact ⟨0, fun hs ht => absurd ⟨hs, ht⟩ hst⟩
  choose F hF using hnat
  refine ⟨(Finset.range n ×ˢ Finset.range n).sup fun x => F x.1 x.2, ?_⟩
  intro s t hs ht
  obtain ⟨i, rfl⟩ : ∃ i : Nat, s = i := ⟨s.toNat, by omega⟩
  obtain ⟨j, rfl⟩ : ∃ j : Nat, t = j := ⟨t.toNat, by omega⟩
  apply hmono _ _ _ _ _ (hF i j (by omega) (by omega))
  have hmem : (i, j) ∈ Finset.range n ×ˢ Finset.range n := by
    rw [Finset.mem_product, Finset.mem_range, Finset.mem_range]
    omega
  exact Finset.le_sup (f := fun x : Nat × Nat => F x.1 x.2) hmem

/-- A request to the controller, among others. -/
theorem returns_getRoute (hd : RouteData G n H N ups ent)
    (hlab : ∀ v : Int, (0 ≤ v ∧ v < n) → Labelled N v) (hids : NodeIds H N) :
    ∃ F, ∀ fuel, F ≤ fuel → ∀ (nearest : δ → δ → Int), (∀ a b, nearest a b < n) →
      ∀ rq : RoutingRequest δ, ∃ response, Responds (Answers G) nearest rq response ∧
        (getRoute (HubLRouter.router fuel H N hids) nearest rq).Returns Calm response := by
  obtain ⟨F, hF⟩ := exists_uniform (n := n)
    (P := fun s t F => ∃ result, Answers G s t result ∧
      ∀ fuel, F ≤ fuel → (Request.route fuel H N s t).Returns Calm result)
    (fun s t F F' hle hex => by
      obtain ⟨result, hans, hrun⟩ := hex
      exact ⟨result, hans, fun fuel hfuel => hrun fuel (by omega)⟩)
    (fun s t hs ht => hd.returns_route hs ht (hlab s hs) (hlab t ht))
  refine ⟨F, ?_⟩
  intro fuel hfuel nearest hnearest rq
  unfold Responds getRoute
  simp only
  have hs := hnearest rq.startPoint.latitude rq.startPoint.longitude
  have ht := hnearest rq.endPoint.latitude rq.endPoint.longitude
  split_ifs with hs0 ht0 heq
  · exact ⟨_, rfl, rfl⟩
  · exact ⟨_, rfl, rfl⟩
  · exact ⟨_, rfl, rfl⟩
  · obtain ⟨result, hans, hrun⟩ := hF _ _ ⟨Int.not_lt.mp hs0, hs⟩ ⟨Int.not_lt.mp ht0, ht⟩
    refine ⟨.ok result, ⟨result, hans, rfl⟩, ?_⟩
    exact Thread.returns_bind (hrun fuel hfuel) rfl

/-- On the calculated data, when the graph is `Direct`, any number of requests may share
one router and take turns in any order.  Each of them gets a shortest path or the right
complaint about its points, and none is ever stuck or throws. -/
theorem getRoute_answers [DecidableEq ι] {I : InputGraph} {calcOrder : List Int}
    (hI : I.Undirected n) (hpos : I.Positive)
    (horder : ∀ u : Int, u ∈ calcOrder ↔ 0 ≤ u ∧ u < n) (hfit : SumsFit I n calcOrder)
    {nearest : δ → δ → Int} (hnearest : ∀ latitude longitude, nearest latitude longitude < n)
    (T : Nat) (hT : 0 < T) :
    ∃ s L, calculateCH I.edges I.grid n calcOrder = .ok s ∧
      calcLabels T 0 s.edges s.grid s.levels n (Labels.new n) = .ok L ∧
      (Direct I s (0 : Nat) → ∃ H N, ∃ hids : NodeIds H N, ∃ F,
        serializeHubLData (0 : Nat) s.levels s.edges s.grid L = .ok (H, N) ∧
        ∀ fuel, F ≤ fuel → ∀ (rq : ι → RoutingRequest δ) is c,
          Steps Interrupted is (requests (HubLRouter.router fuel H N hids) nearest rq) c →
          ∀ i, (∃ response, (c.activity i).outcome = some (.ok response) ∧
              Responds (Answers I.Adj) nearest (rq i) response) ∨
            (c.activity i).outcome = none ∧ ∃ c', Step Interrupted i c c') := by
  obtain ⟨s, top, hch, hf⟩ := calculateCH_finished hI hpos horder
  obtain ⟨_, _, L, _, _, hseq, _⟩ := hf.calcLabels_done 0
  have hrun := hseq T hT
  refine ⟨s, L, hch, hrun, ?_⟩
  intro hdirect
  have hint := hf.holdsInts (hfit s hch) hT hrun
  have hbound := hf.isDist_lt (hfit s hch)
  have hlaunch : ∀ u : Int, (0 ≤ u ∧ u < n) → ((0 : Nat) : Int) ≤ LabelCreator.levelOf s u →
      HLDijkstra.Launches I.Adj s.edges s.grid s.levels u :=
    fun u _ hu => hdirect.launches hf hu
  obtain ⟨H, N, hser, hstore⟩ :=
    serializeHubLData_spec hf.gridState (hf.fairLabels hT hrun hint).state (0 : Nat)
  have hdata := hf.routeData hT hlaunch hrun hint hstore hbound
  have hids := hf.nodeIds (hf.exactLabels hT hlaunch hrun hint).1 hstore hbound
  have hlab : ∀ v : Int, (0 ≤ v ∧ v < n) → Labelled N v :=
    fun v hv => (labelled_iff hstore v).2.mpr (hf.level_bounds hv.1 hv.2).1
  obtain ⟨F, hF⟩ := returns_getRoute hdata hlab hids
  refine ⟨H, N, hids, F, hser, ?_⟩
  intro fuel hfuel rq is c hsteps i
  choose response hresponds hreturns using hF fuel hfuel nearest hnearest
  have hc := hsteps.returns ⟨calm_new, fun i => ⟨_, rfl, hreturns (rq i)⟩⟩
  rcases hc.outcome i with hend | hgoes
  · exact Or.inl ⟨_, hend, hresponds (rq i)⟩
  · exact Or.inr hgoes

/-- The ids of the row as latitudes; elsewhere there is no node. -/
def nearestRow (latitude _longitude : Int) : Int :=
  if 0 ≤ latitude ∧ latitude < 3 then latitude else -1

theorem getRoute_answers_row :
    ∃ s L, calculateCH row.edges row.grid 3 [1, 0, 2] = .ok s ∧
      calcLabels NUM_OF_THREADS 0 s.edges s.grid s.levels 3 (Labels.new 3) = .ok L ∧
      ∃ H N, ∃ hids : NodeIds H N, ∃ F,
        serializeHubLData (0 : Nat) s.levels s.edges s.grid L = .ok (H, N) ∧
        ∀ fuel, F ≤ fuel → ∀ (rq : Nat → RoutingRequest Int) is c,
          Steps Interrupted is (requests (HubLRouter.router fuel H N hids) nearestRow rq) c →
          ∀ i, (∃ response, (c.activity i).outcome = some (.ok response) ∧
              Responds (Answers row.Adj) nearestRow (rq i) response) ∨
            (c.activity i).outcome = none ∧ ∃ c', Step Interrupted i c c' := by
  have hnearest : ∀ latitude longitude, nearestRow latitude longitude < (3 : Nat) := by
    intro latitude longitude
    unfold nearestRow
    split_ifs
    · omega
    · decide
  obtain ⟨s, L, hch, hlab, hanswers⟩ := @getRoute_answers _ Nat _ _ _ _ row_checked.undirected
    row_positive mem_detourOrder row_sumsFit _ hnearest NUM_OF_THREADS (by decide)
  exact ⟨s, L, hch, hlab, hanswers (row_metric.direct s _)⟩

end RoutingController

end SeaRouter
