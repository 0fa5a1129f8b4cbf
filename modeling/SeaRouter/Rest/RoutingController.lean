import SeaRouter.Router.LabelledRequests

/-!
# `rest/RoutingController.java`

The controller has one router for all requests, and the requests are threads on it.
Nothing locks the router: `getRoute_disturbed` are runs in which a request for two nodes
next to each other finds no route, because another one has emptied the heap.

`Router` is the interface with what the requests need of it: an invariant that every
step of `route` preserves, and on which its result does not depend.  So a request has
the response that it has alone on a new router, if no other one changes the router
between its first step and its last one.  When all nodes have labels, the hub label
router gives each request this response in any interleaving.  Both are
`getRoute_undisturbed`.

The router is created by the first request in the source; here it is there from the
beginning.  `Grid.getNearestGridNodeByCoordinates` is a parameter, as the results hold for
any choice of the nodes; `DijkstraGrid.NearestNode` has the function of the source.
-/

namespace SeaRouter

open Java

/-- The fields of `LatLong`. -/
structure LatLong (δ : Type) where
  latitude : δ
  longitude : δ

/-- The fields of `RoutingRequest`. -/
structure RoutingRequest (δ : Type) where
  startPoint : LatLong δ
  endPoint : LatLong δ

/-- The responses of `getRoute`, with the status `BAD_REQUEST` or `OK`. -/
inductive ResponseEntity
  | badRequest (body : String)
  | ok (body : RoutingResult)
deriving DecidableEq, Repr

/-- A class with the interface `Router`, on the objects `σ`. -/
structure Router (σ : Type) : Type 1 where
  new : σ
  route : Int → Int → Thread σ RoutingResult
  /-- What an exception leaves of the object. -/
  leaves : σ → σ → Prop
  Sane : σ → Prop
  sane_new : Sane new
  sane_leaves : ∀ r r', Sane r → leaves r r' → Sane r'
  keeps_route : ∀ s t, (route s t).Keeps Sane
  run_route_eq_new : ∀ r, Sane r → ∀ s t,
    ((route s t).run r).map Prod.fst = ((route s t).run new).map Prod.fst

def DijkstraRouter.router (fuel : Nat) (g : Grid) : Router DijkstraRouter where
  new := new g
  route := Request.route fuel g
  leaves := Interrupted
  Sane := Sized g
  sane_new := sized_new g
  sane_leaves _ _ h hi := h.interrupted hi
  keeps_route := Request.keeps_route fuel
  run_route_eq_new _ h s t := by rw [Request.run_route_eq_new h]

def HubLRouter.router (fuel : Nat) (H : HubLEdges) (N : HubLNodes) (hd : NodeIds H N) :
    Router HubLRouter where
  new := new
  route := Request.route fuel H N
  leaves := Interrupted
  Sane := Sane
  sane_new := sane_new
  sane_leaves _ _ h hi := h.interrupted hi
  keeps_route := Request.keeps_route fuel
  run_route_eq_new _ h := Request.run_route_eq_new hd h fuel

namespace RoutingController

variable {σ δ ι : Type}

/-- `getRoute(routingRequest)`. -/
def getRoute (R : Router σ) (getNearestGridNodeByCoordinates : δ → δ → Int)
    (routingRequest : RoutingRequest δ) : Thread σ ResponseEntity :=
  let startNodeId := getNearestGridNodeByCoordinates routingRequest.startPoint.latitude
    routingRequest.startPoint.longitude
  let destNodeId := getNearestGridNodeByCoordinates routingRequest.endPoint.latitude
    routingRequest.endPoint.longitude
  if startNodeId < 0 then
    return .badRequest "Start position is not on the ocean!"
  else if destNodeId < 0 then
    return .badRequest "Destination position is not on the ocean!"
  else if startNodeId = destNodeId then
    return .badRequest "Destination position is equal to start position!"
  else do
    let res ← R.route startNodeId destNodeId
    return .ok res

/-- The response to a request that is the only one. -/
def alone (R : Router σ) (nearest : δ → δ → Int) (rq : RoutingRequest δ) : Run ResponseEntity :=
  ((getRoute R nearest rq).run R.new).map Prod.fst

/-- The requests `rq` before the first step of any of them. -/
def requests (R : Router σ) (nearest : δ → δ → Int) (rq : ι → RoutingRequest δ) :
    Config ι σ ResponseEntity where
  shared := R.new
  activity := fun i => .running (getRoute R nearest (rq i))

theorem keeps_getRoute (R : Router σ) (nearest : δ → δ → Int) (rq : RoutingRequest δ) :
    (getRoute R nearest rq).Keeps R.Sane := by
  unfold getRoute
  simp only
  split_ifs
  · exact trivial
  · exact trivial
  · exact trivial
  · apply Thread.keeps_bind (R.keeps_route _ _)
    intro res
    exact trivial

theorem requests_keeps (R : Router σ) (nearest : δ → δ → Int) (rq : ι → RoutingRequest δ) :
    (requests R nearest rq).Keeps R.Sane := by
  refine ⟨R.sane_new, ?_⟩
  intro i p hp
  rw [requests, Activity.running.injEq] at hp
  exact hp ▸ keeps_getRoute R nearest (rq i)

theorem run_getRoute_eq_alone (R : Router σ) (nearest : δ → δ → Int) (rq : RoutingRequest δ) {r : σ}
    (hr : R.Sane r) : ((getRoute R nearest rq).run r).map Prod.fst = alone R nearest rq := by
  unfold alone getRoute
  simp only
  split_ifs
  · rfl
  · rfl
  · rfl
  · rw [Thread.run_bind_pure, Thread.run_bind_pure, R.run_route_eq_new r hr]

theorem Router.outcome_eq_alone [DecidableEq ι] (R : Router σ) (nearest : δ → δ → Int)
    (rq : ι → RoutingRequest δ) {i : ι} {c : Config ι σ ResponseEntity} {o : Run ResponseEntity}
    (h : Undisturbed R.leaves i (requests R nearest rq) c) (ho : (c.activity i).outcome = some o) :
    o = alone R nearest (rq i) := by
  obtain ⟨r, hr, heq⟩ := h.alone R.sane_leaves (requests_keeps R nearest rq) rfl ho
  rw [heq, run_getRoute_eq_alone R nearest (rq i) hr]

/-- All nodes have labels. -/
def AllLabelled (N : HubLNodes) : Prop := ∀ lvl ∈ N.levels, N.hlLevel ≤ lvl

instance (N : HubLNodes) : Decidable (AllLabelled N) :=
  inferInstanceAs (Decidable (∀ lvl ∈ N.levels, N.hlLevel ≤ lvl))

theorem AllLabelled.nodeHasLabels {N : HubLNodes} (h : AllLabelled N) {v : Int} {b : Bool}
    (hv : N.nodeHasLabels v = .ok b) : N.nodeHasLabels v = .ok true := by
  simp only [HubLNodes.nodeHasLabels, bind_eq_ok, pure_eq_ok] at hv ⊢
  obtain ⟨lvl, hlvl, _⟩ := hv
  exact ⟨lvl, hlvl, by rw [decide_eq_true (h lvl (mem_of_rd hlvl))]⟩

/-- When all nodes have labels, a request that returns alone returns the same among
others. -/
theorem returns_getRoute_of_alone {H : HubLEdges} {N : HubLNodes} (hd : HubLRouter.NodeIds H N)
    (hlab : AllLabelled N) (fuel : Nat) (nearest : δ → δ → Int) (rq : RoutingRequest δ)
    {response : ResponseEntity}
    (h : alone (HubLRouter.router fuel H N hd) nearest rq = .ok response) :
    (getRoute (HubLRouter.router fuel H N hd) nearest rq).Returns HubLRouter.Calm response := by
  unfold alone getRoute at h
  unfold getRoute
  simp only at h ⊢
  split_ifs at h ⊢
  · exact Except.ok.inj h
  · exact Except.ok.inj h
  · exact Except.ok.inj h
  · rw [Thread.run_bind_pure] at h
    show (HubLRouter.Request.route fuel H N _ _ >>= _).Returns HubLRouter.Calm response
    cases hrun : HubLRouter.route fuel H N HubLRouter.new
        (nearest rq.startPoint.latitude rq.startPoint.longitude)
        (nearest rq.endPoint.latitude rq.endPoint.longitude) with
    | error e =>
      exfalso
      simp [HubLRouter.router, HubLRouter.Request.run_route, hrun, Except.map] at h
    | ok a =>
      obtain ⟨result, r'⟩ := a
      obtain ⟨⟨b, hs⟩, b', ht⟩ := HubLRouter.nodeHasLabels_of_route hrun
      apply Thread.returns_bind
        (HubLRouter.Request.returns_route (hlab.nodeHasLabels hs) (hlab.nodeHasLabels ht) hrun)
      simp only [HubLRouter.router, HubLRouter.Request.run_route, hrun, Except.map,
        Except.ok.injEq] at h
      exact h

/-- A request returns what it returns alone, or throws what it throws alone, if no other
one changes the router between its first step and its last one.  On the hub label router
with labels for all nodes, requests that return alone do so in any interleaving. -/
theorem getRoute_undisturbed [DecidableEq ι] (nearest : δ → δ → Int) (rq : ι → RoutingRequest δ)
    (i : ι) (fuel : Nat) :
    (∀ (g : Grid) (c : Config ι DijkstraRouter ResponseEntity) (o : Run ResponseEntity),
      Undisturbed DijkstraRouter.Interrupted i (requests (DijkstraRouter.router fuel g) nearest rq) c →
      (c.activity i).outcome = some o → o = alone (DijkstraRouter.router fuel g) nearest (rq i)) ∧
    ∀ (H : HubLEdges) (N : HubLNodes) (hd : HubLRouter.NodeIds H N),
      (∀ (c : Config ι HubLRouter ResponseEntity) (o : Run ResponseEntity),
        Undisturbed HubLRouter.Interrupted i (requests (HubLRouter.router fuel H N hd) nearest rq) c →
        (c.activity i).outcome = some o →
        o = alone (HubLRouter.router fuel H N hd) nearest (rq i)) ∧
      (AllLabelled N →
        (∀ j, ∃ response, alone (HubLRouter.router fuel H N hd) nearest (rq j) = .ok response) →
        ∀ (is : List ι) (c : Config ι HubLRouter ResponseEntity),
          Steps HubLRouter.Interrupted is (requests (HubLRouter.router fuel H N hd) nearest rq) c →
          (c.activity i).outcome = some (alone (HubLRouter.router fuel H N hd) nearest (rq i)) ∨
            (c.activity i).outcome = none ∧ ∃ c', Step HubLRouter.Interrupted i c c') := by
  refine ⟨fun g _ _ h ho => Router.outcome_eq_alone (DijkstraRouter.router fuel g) nearest rq h ho,
    fun H N hd => ⟨fun _ _ h ho => Router.outcome_eq_alone (HubLRouter.router fuel H N hd) nearest
      rq h ho, ?_⟩⟩
  intro hlab halone is c hsteps
  choose response hresponse using halone
  have hc := hsteps.returns ⟨HubLRouter.calm_new, fun j =>
    ⟨_, rfl, returns_getRoute_of_alone hd hlab fuel nearest (rq j) (hresponse j)⟩⟩
  rw [hresponse i]
  exact hc.outcome i

/-- A request for two nodes, whose latitudes are their ids. -/
def between (startNodeId destNodeId : Int) : RoutingRequest Int where
  startPoint := { latitude := startNodeId, longitude := 0 }
  endPoint := { latitude := destNodeId, longitude := 0 }

def nearestOf (latitude _longitude : Int) : Int := latitude

/-- Two requests on `rowGrid`, with the ids `true` and `false`. -/
def rowRequest (i : Bool) : RoutingRequest Int := bif i then between 0 2 else between 0 1

def rowRequests : Config Bool DijkstraRouter ResponseEntity :=
  requests (DijkstraRouter.router 3 DijkstraRouter.rowGrid) nearestOf rowRequest

/-- Two requests on `pairEdges`. -/
def pairRequest (i : Bool) : RoutingRequest Int := bif i then between 0 1 else between 1 0

def pairRequests : Config Bool HubLRouter ResponseEntity :=
  requests (HubLRouter.router 5 HubLRouter.pairEdges HubLRouter.pairCut HubLRouter.pair_nodeIds)
    nearestOf pairRequest

theorem chain_nodeIds : HubLRouter.NodeIds HubLRouter.chainEdges HubLRouter.chainNodes where
  levels := by decide
  dest := by
    intro v first last i e w _ _ _ _ hw
    have hsmall : ∀ x ∈ HubLRouter.chainEdges.dest, x < MAX_VALUE := by decide
    exact hsmall w (mem_of_rd hw)
  labelNode := by
    intro v first last i w _ _ _ hw
    have hsmall : ∀ x ∈ HubLRouter.chainNodes.labelNode, x < MAX_VALUE := by decide
    exact hsmall w (mem_of_rd hw)

/-- Two requests on the chain, all of whose nodes have labels. -/
def chainRequest (i : Bool) : RoutingRequest Int := bif i then between 0 4 else between 3 1

def chainRouter : Router HubLRouter :=
  HubLRouter.router 8 HubLRouter.chainEdges HubLRouter.chainNodes chain_nodeIds

def chainRequests : Config Bool HubLRouter ResponseEntity :=
  requests chainRouter nearestOf chainRequest

/-- The request `true` begins, and the request `false` puts its own start node into the
heap.  Then `true` empties the heap, and `false` finds no route to the next node.  On the
hub label router, the reset of `false` takes the node without labels from the heap
where `true` has put it, and `true` finds no route. -/
theorem getRoute_disturbed :
    (∃ c, Steps DijkstraRouter.Interrupted
        [true, false, true, true, true, true, true, false, false] rowRequests c ∧
      (c.activity false).outcome = some (.ok (.ok RoutingResult.notFound)) ∧
      alone (DijkstraRouter.router 3 DijkstraRouter.rowGrid) nearestOf (rowRequest false) =
        .ok (.ok (RoutingResult.found [0, 1] 0))) ∧
    ∃ c, Steps HubLRouter.Interrupted
        (List.replicate 4 true ++ [false] ++ List.replicate 6 true) pairRequests c ∧
      (c.activity true).outcome = some (.ok (.ok RoutingResult.notFound)) ∧
      alone (HubLRouter.router 5 HubLRouter.pairEdges HubLRouter.pairCut HubLRouter.pair_nodeIds)
        nearestOf (pairRequest true) = .ok (.ok (RoutingResult.found [1] 1)) := by
  constructor
  · have hrun : (rowRequests.exec (fun _ _ _ => true)
        [true, false, true, true, true, true, true, false, false]).any
          (fun c => (c.activity false).outcome = some (.ok (.ok RoutingResult.notFound))) := by
      decide +kernel
    obtain ⟨c, hexec, hout⟩ := Option.any_eq_true _ _ |>.mp hrun
    exact ⟨c, Steps.of_exec _ hexec, by simpa using hout, by decide +kernel⟩
  · have hrun : (pairRequests.exec (fun _ _ _ => true)
        (List.replicate 4 true ++ [false] ++ List.replicate 6 true)).any
          (fun c => (c.activity true).outcome = some (.ok (.ok RoutingResult.notFound))) := by
      decide +kernel
    obtain ⟨c, hexec, hout⟩ := Option.any_eq_true _ _ |>.mp hrun
    exact ⟨c, Steps.of_exec _ hexec, by simpa using hout, by decide +kernel⟩

/-- In the first run the request `false` reads its path while `true` searches.  In the
second one `true` runs while `false` waits in the middle of its search.  In the third
one, where all nodes have labels, the two take turns. -/
theorem getRoute_undisturbed_row :
    (∃ c, Undisturbed DijkstraRouter.Interrupted true rowRequests c ∧
      (c.activity true).outcome = some (.ok (.ok (RoutingResult.found [0, 1, 2] 5))) ∧
      .ok (.ok (RoutingResult.found [0, 1, 2] 5)) =
        alone (DijkstraRouter.router 3 DijkstraRouter.rowGrid) nearestOf (rowRequest true)) ∧
    (∃ c, Undisturbed HubLRouter.Interrupted true pairRequests c ∧
      (c.activity true).outcome = some (.ok (.ok (RoutingResult.found [1] 1))) ∧
      .ok (.ok (RoutingResult.found [1] 1)) =
        alone (HubLRouter.router 5 HubLRouter.pairEdges HubLRouter.pairCut HubLRouter.pair_nodeIds)
          nearestOf (pairRequest true)) ∧
    AllLabelled HubLRouter.chainNodes ∧
    (∀ j, ∃ response, alone chainRouter nearestOf (chainRequest j) = .ok response) ∧
    ∃ c, Steps HubLRouter.Interrupted ((List.replicate 12 [true, false]).flatten ++ [false])
        chainRequests c ∧
      (c.activity false).outcome = some (.ok (.ok (RoutingResult.found [3, 2, 1] 2))) ∧
      ((c.activity false).outcome = some (alone chainRouter nearestOf (chainRequest false)) ∨
        (c.activity false).outcome = none ∧ ∃ c', Step HubLRouter.Interrupted false c c') := by
  refine ⟨?_, ?_, ?_⟩
  · have hrun : (rowRequests.exec (fun _ _ _ => true) [false, false, false, false]).any (fun c =>
        (c.exec (fun j s s' => decide (j = true ∨ s' = s))
          [true, true, false, true, true, true, true]).any (fun c' =>
            (c'.activity true).outcome = some (.ok (.ok (RoutingResult.found [0, 1, 2] 5))))) := by
      decide +kernel
    obtain ⟨c, hbefore, hrest⟩ := Option.any_eq_true _ _ |>.mp hrun
    obtain ⟨c', hquiet, hout⟩ := Option.any_eq_true _ _ |>.mp hrest
    have h : Undisturbed DijkstraRouter.Interrupted true rowRequests c' :=
      ⟨_, [], c, c', by decide, by simp, Steps.of_exec _ hbefore, Quiet.of_exec _ hquiet, Steps.nil c'⟩
    have ho : (c'.activity true).outcome = some (.ok (.ok (RoutingResult.found [0, 1, 2] 5))) := by
      simpa using hout
    exact ⟨c', h, ho,
      (getRoute_undisturbed nearestOf rowRequest true 3).1 DijkstraRouter.rowGrid c' _ h ho⟩
  · have hrun : (pairRequests.exec (fun _ _ _ => true) (List.replicate 9 false)).any (fun c =>
        (c.exec (fun j s s' => decide (j = true ∨ s' = s)) (List.replicate 18 true)).any (fun c' =>
          (c'.exec (fun _ _ _ => true) [false, false]).any (fun c'' =>
            (c''.activity true).outcome = some (.ok (.ok (RoutingResult.found [1] 1)))))) := by
      decide +kernel
    obtain ⟨c, hbefore, hrest⟩ := Option.any_eq_true _ _ |>.mp hrun
    obtain ⟨c', hquiet, hrest⟩ := Option.any_eq_true _ _ |>.mp hrest
    obtain ⟨c'', hafter, hout⟩ := Option.any_eq_true _ _ |>.mp hrest
    have h : Undisturbed HubLRouter.Interrupted true pairRequests c'' :=
      ⟨_, _, c, c', by decide, by decide, Steps.of_exec _ hbefore, Quiet.of_exec _ hquiet,
        Steps.of_exec _ hafter⟩
    have ho : (c''.activity true).outcome = some (.ok (.ok (RoutingResult.found [1] 1))) := by
      simpa using hout
    exact ⟨c'', h, ho, ((getRoute_undisturbed nearestOf pairRequest true 5).2 HubLRouter.pairEdges
      HubLRouter.pairCut HubLRouter.pair_nodeIds).1 c'' _ h ho⟩
  · have hlab : AllLabelled HubLRouter.chainNodes := by decide
    have halone : ∀ j, ∃ response, alone chainRouter nearestOf (chainRequest j) = .ok response := by
      intro j
      cases j with
      | true => exact ⟨.ok (RoutingResult.found [0, 1, 2, 3, 4] 4), by decide +kernel⟩
      | false => exact ⟨.ok (RoutingResult.found [3, 2, 1] 2), by decide +kernel⟩
    have hrun : (chainRequests.exec (fun _ _ _ => true)
        ((List.replicate 12 [true, false]).flatten ++ [false])).any (fun c =>
          (c.activity false).outcome = some (.ok (.ok (RoutingResult.found [3, 2, 1] 2)))) := by
      decide +kernel
    obtain ⟨c, hexec, hout⟩ := Option.any_eq_true _ _ |>.mp hrun
    have hsteps := Steps.of_exec HubLRouter.Interrupted hexec
    exact ⟨hlab, halone, c, hsteps, by simpa using hout,
      ((getRoute_undisturbed nearestOf chainRequest false 8).2 HubLRouter.chainEdges
        HubLRouter.chainNodes chain_nodeIds).2 hlab halone _ c hsteps⟩

end RoutingController

end SeaRouter
