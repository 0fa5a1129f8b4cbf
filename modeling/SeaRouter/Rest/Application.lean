import SeaRouter.DijkstraGrid.NearestNode
import SeaRouter.Rest.ConcurrentRequests
import SeaRouter.Router.Preprocessing

/-!
# `SearouterApplication.java`

The application serves requests with one of two routers: with the `DijkstraRouter` on the
grid that `Grid.importFmiFile` reads, or with the `HubLRouter` on the data that
`LabelCreator.main` has made of the same file.  `serve_agrees`: one can replace the other.

`Router.Answering` is what the controller needs of a router, and `serve_spec` what follows
for requests that come one after the other.
-/

namespace SeaRouter

open Java WGraph

namespace RoutingResult

variable {δ : Type}

/-- `setPath(path)`: the `pathCoordinates` of the path. -/
def setPath (nodes : Node δ) (path : List Int) : Run (List (List δ)) :=
  path.foldlM (fun pathCoordinates nodeIdx => do
    let coord := [← rd nodes.latitude nodeIdx, ← rd nodes.longitude nodeIdx]
    return pathCoordinates ++ [coord]) []

/-- `coord` is the point of the node `v`. -/
def ShowsPoint (nodes : Node δ) (v : Int) (coord : List δ) : Prop :=
  ∃ lat long, rd nodes.latitude v = .ok lat ∧ rd nodes.longitude v = .ok long ∧ coord = [lat, long]

/-- The coordinates are those of the nodes on the path. -/
theorem setPath_spec {nodes : Node δ} (hlen : nodes.longitude.length = nodes.latitude.length)
    {path : List Int} (hpath : ∀ v ∈ path, 0 ≤ v ∧ v < nodes.latitude.length) :
    ∃ coordinates, setPath nodes path = .ok coordinates ∧
      List.Forall₂ (ShowsPoint nodes) path coordinates := by
  apply foldlM_spec path [] List.Forall₂.nil
  intro pre v post coordinates hsplit hpre
  have hv := hpath v (by rw [hsplit]; simp)
  obtain ⟨lat, hlat⟩ := exists_rd (a := nodes.latitude) hv.1 hv.2
  obtain ⟨long, hlong⟩ := exists_rd (a := nodes.longitude) hv.1 (by omega)
  refine ⟨coordinates ++ [[lat, long]], by rw [hlat, hlong]; rfl, ?_⟩
  apply List.rel_append hpre
  exact List.Forall₂.cons ⟨lat, long, hlat, hlong, rfl⟩ List.Forall₂.nil

end RoutingResult

/-! ## Requests one after the other -/

namespace RoutingController

variable {σ δ : Type} {R : Router σ} {P : Int → Int → RoutingResult → Prop} {n : Nat}
  {nearest : δ → δ → Int}

/-- The responses to a list of requests, from the router `r` on. -/
def serve (R : Router σ) (nearest : δ → δ → Int) :
    List (RoutingRequest δ) → σ → Run (List ResponseEntity)
  | [], _ => return []
  | rq :: rqs, r => do
    let (response, r) ← (getRoute R nearest rq).run r
    return response :: (← serve R nearest rqs r)

/-- On a new object, a request between any two of the `n` nodes has a right result. -/
def Router.Answering (R : Router σ) (P : Int → Int → RoutingResult → Prop) (n : Nat) : Prop :=
  ∀ s t : Int, (0 ≤ s ∧ s < n) → (0 ≤ t ∧ t < n) →
    ∃ result, ((R.route s t).run R.new).map Prod.fst = .ok result ∧ P s t result

theorem Router.Answering.mono (h : Router.Answering R P n) {Q : Int → Int → RoutingResult → Prop}
    (himp : ∀ (s t : Int) result, (0 ≤ s ∧ s < n) → (0 ≤ t ∧ t < n) → P s t result → Q s t result) :
    Router.Answering R Q n := by
  intro s t hs ht
  obtain ⟨result, hrun, hP⟩ := h s t hs ht
  exact ⟨result, hrun, himp s t result hs ht hP⟩

theorem alone_spec (h : Router.Answering R P n) (hnearest : ∀ a b, nearest a b < n)
    (rq : RoutingRequest δ) :
    ∃ response, alone R nearest rq = .ok response ∧ Responds P nearest rq response := by
  unfold alone Responds getRoute
  simp only
  have hs := hnearest rq.startPoint.latitude rq.startPoint.longitude
  have ht := hnearest rq.endPoint.latitude rq.endPoint.longitude
  split_ifs with hs0 ht0 heq
  · exact ⟨_, rfl, rfl⟩
  · exact ⟨_, rfl, rfl⟩
  · exact ⟨_, rfl, rfl⟩
  · obtain ⟨result, hrun, hans⟩ := h _ _ ⟨Int.not_lt.mp hs0, hs⟩ ⟨Int.not_lt.mp ht0, ht⟩
    refine ⟨.ok result, ?_, result, hans, rfl⟩
    rw [Thread.run_bind_pure, hrun]
    rfl

/-- The next request, whatever the earlier ones have left in the router. -/
theorem getRoute_spec (h : Router.Answering R P n) (hnearest : ∀ a b, nearest a b < n)
    (rq : RoutingRequest δ) {r : σ} (hr : R.Sane r) :
    ∃ response r', (getRoute R nearest rq).run r = .ok (response, r') ∧ R.Sane r' ∧
      Responds P nearest rq response := by
  obtain ⟨response, halone, hresponds⟩ := alone_spec h hnearest rq
  have hrun := run_getRoute_eq_alone R nearest rq hr
  rw [halone] at hrun
  cases hget : (getRoute R nearest rq).run r with
  | error e =>
    rw [hget] at hrun
    simp [Except.map] at hrun
  | ok x =>
    obtain ⟨response', r'⟩ := x
    rw [hget] at hrun
    obtain rfl : response' = response := Except.ok.inj hrun
    exact ⟨response', r', rfl, (keeps_getRoute R nearest rq).run hr hget, hresponds⟩

theorem serve_spec (h : Router.Answering R P n) (hnearest : ∀ a b, nearest a b < n)
    (rqs : List (RoutingRequest δ)) {r : σ} (hr : R.Sane r) :
    ∃ responses, serve R nearest rqs r = .ok responses ∧
      List.Forall₂ (Responds P nearest) rqs responses := by
  induction rqs generalizing r with
  | nil => exact ⟨[], rfl, List.Forall₂.nil⟩
  | cons rq rqs ih =>
    obtain ⟨response, r', hrun, hr', hresponds⟩ := getRoute_spec h hnearest rq hr
    obtain ⟨responses, hrest, hall⟩ := ih hr'
    refine ⟨response :: responses, ?_, List.Forall₂.cons hresponds hall⟩
    rw [serve, hrun, ok_bind]
    simp only [hrest, ok_bind, pure_eq_ok]

/-- The results agree, but for the path and its coordinates. -/
def SameDistance (result result' : RoutingResult) : Prop :=
  result.routeFound = result'.routeFound ∧ result.getOverallDistance = result'.getOverallDistance

def SameResponse : ResponseEntity → ResponseEntity → Prop
  | .badRequest body, .badRequest body' => body = body'
  | .ok result, .ok result' => SameDistance result result'
  | _, _ => False

/-- Two right results for the same nodes have the same distance. -/
theorem sameDistance_of_answers {G : Int → Int → Int → Prop} {s t : Int}
    {result result' : RoutingResult} (h : HubLRouter.Answers G s t result)
    (h' : HubLRouter.Answers G s t result') : SameDistance result result' := by
  have hfound : result.routeFound = result'.routeFound := by
    rw [Bool.eq_iff_iff, ← not_iff_not, Bool.not_eq_true, Bool.not_eq_true, h.1, h'.1]
  refine ⟨hfound, ?_⟩
  unfold RoutingResult.getOverallDistance
  cases hr : result.routeFound with
  | false =>
    rw [← hfound, hr]
    rfl
  | true =>
    rw [hr] at hfound
    rw [← hfound]
    exact (h.2 hr).1.unique (h'.2 hfound.symm).1

theorem Responds.same (hP : ∀ s t result result', P s t result → P s t result' →
      SameDistance result result') {rq : RoutingRequest δ} {response response' : ResponseEntity}
    (h : Responds P nearest rq response) (h' : Responds P nearest rq response') :
    SameResponse response response' := by
  unfold Responds at h h'
  simp only at h h'
  split_ifs at h h' with hs ht heq
  · rw [h, h']
    rfl
  · rw [h, h']
    rfl
  · rw [h, h']
    rfl
  · obtain ⟨result, hans, rfl⟩ := h
    obtain ⟨result', hans', rfl⟩ := h'
    exact hP _ _ _ _ hans hans'

theorem forall₂_same (hP : ∀ s t result result', P s t result → P s t result' →
      SameDistance result result') {rqs : List (RoutingRequest δ)}
    {responses responses' : List ResponseEntity}
    (h : List.Forall₂ (Responds P nearest) rqs responses)
    (h' : List.Forall₂ (Responds P nearest) rqs responses') :
    List.Forall₂ SameResponse responses responses' := by
  induction h generalizing responses' with
  | nil =>
    cases h'
    exact List.Forall₂.nil
  | cons hresponds _ ih =>
    cases h' with
    | cons hresponds' hrest =>
      exact List.Forall₂.cons (hresponds.same hP hresponds') (ih hrest)

end RoutingController

/-! ## The two routers -/

namespace SearouterApplication

open RoutingController RoutingResult LabelCreator HubLRouter Grid

variable {δ κ : Type} {parseDouble : List Char → Run δ} {entryOrder : List Int → List Int}
  {g : Grid}

theorem nonneg_of_routable (h : Routable g) (hw : g.WellFormed) : ∀ l ∈ g.dist, 0 ≤ l := by
  intro l hl
  obtain ⟨u, v, hedge⟩ := hw.exists_hasEdge hl
  exact le_of_lt (h.positive _ (Grid.mem_edges.mpr hedge))

theorem dijkstra_answering (hw : g.WellFormed) (hnn : ∀ l ∈ g.dist, 0 ≤ l)
    (htotal : g.dist.sum < MAX_VALUE) :
    Router.Answering (DijkstraRouter.router g.nodeCount g) (Answers g.HasEdge) g.nodeCount := by
  intro s t hs _
  obtain ⟨result, hrun, hfound, hroute⟩ :=
    DijkstraRouter.route_spec hw hnn htotal (t := t) (DijkstraRouter.sized_new g) hs
  refine ⟨result, ?_, ?_, hroute⟩
  · rw [← hrun]
    exact DijkstraRouter.Request.run_route_nodeCount s t (DijkstraRouter.new g)
  · rw [← hfound, Bool.not_eq_true]

theorem hubL_answering {H : HubLEdges} {N : HubLNodes} (h : DataOf g H N) :
    ∃ F, ∀ fuel, F ≤ fuel →
      Router.Answering (HubLRouter.router fuel H N h.ids) (Answers g.HasEdge) g.nodeCount := by
  obtain ⟨ups, ent, hdata⟩ := h.route
  obtain ⟨F, hF⟩ := exists_uniform (n := g.nodeCount)
    (P := fun s t F => ∃ result, Answers g.HasEdge s t result ∧ ∀ fuel, F ≤ fuel →
      (HubLRouter.Request.route fuel H N s t).Returns HubLRouter.Calm result)
    (fun s t F F' hle hex => by
      obtain ⟨result, hans, hrun⟩ := hex
      exact ⟨result, hans, fun fuel hfuel => hrun fuel (by omega)⟩)
    (fun s t hs ht =>
      hdata.returns_route hs ht (h.labelled s hs) (h.labelled t ht))
  refine ⟨F, ?_⟩
  intro fuel hfuel s t hs ht
  obtain ⟨result, hans, hreturns⟩ := hF s t hs ht
  obtain ⟨r', hrun, _⟩ := (hreturns fuel hfuel).run HubLRouter.calm_new
  refine ⟨result, ?_, hans⟩
  have hrun' : ((HubLRouter.router fuel H N h.ids).route s t).run
      (HubLRouter.router fuel H N h.ids).new = .ok (result, r') := hrun
  rw [hrun']
  rfl

/-- The result is right, and the constructor finds the coordinates of the path. -/
def Shown (g : Grid) (nodes : Node δ) (s t : Int) (result : RoutingResult) : Prop :=
  Answers g.HasEdge s t result ∧
    (result.routeFound = true → ∃ coordinates, setPath nodes result.path = .ok coordinates ∧
      List.Forall₂ (ShowsPoint nodes) result.path coordinates)

theorem shown_of_answers (hw : g.WellFormed) {nodes : Node δ}
    (hlat : nodes.latitude.length = g.nodeCount)
    (hlong : nodes.longitude.length = nodes.latitude.length) {s t : Int} (hs : g.IsNode s)
    {result : RoutingResult} (h : Answers g.HasEdge s t result) : Shown g nodes s t result := by
  refine ⟨h, ?_⟩
  intro hfound
  apply setPath_spec hlong
  rw [hlat]
  exact (h.2 hfound).2.forall_mem (fun _ _ _ hedge _ => (hedge.isNode hw).2) hs

/-- Both applications answer any list of requests, with results as `P` says and with the
same complaints and distances. -/
def ServeAlike (g : Grid) (P : Int → Int → RoutingResult → Prop) (nearest : δ → δ → Int)
    (fuel : Nat) (H : HubLEdges) (N : HubLNodes) (hids : NodeIds H N) : Prop :=
  ∀ rqs, ∃ responses responses',
    serve (DijkstraRouter.router g.nodeCount g) nearest rqs (DijkstraRouter.new g) = .ok responses ∧
    serve (HubLRouter.router fuel H N hids) nearest rqs HubLRouter.new = .ok responses' ∧
    List.Forall₂ (Responds P nearest) rqs responses ∧
    List.Forall₂ (Responds P nearest) rqs responses' ∧
    List.Forall₂ SameResponse responses responses'

theorem serveAlike_of_data (hw : g.WellFormed) (hnn : ∀ l ∈ g.dist, 0 ≤ l)
    (htotal : g.dist.sum < MAX_VALUE) {H : HubLEdges} {N : HubLNodes} (hdata : DataOf g H N)
    {P : Int → Int → RoutingResult → Prop}
    (hP : ∀ s t result, g.IsNode s → g.IsNode t → Answers g.HasEdge s t result → P s t result)
    (hanswers : ∀ s t result, P s t result → Answers g.HasEdge s t result) {nearest : δ → δ → Int}
    (hnearest : ∀ latitude longitude, nearest latitude longitude < g.nodeCount) :
    ∃ F, ∀ fuel, F ≤ fuel → ServeAlike g P nearest fuel H N hdata.ids := by
  obtain ⟨F, hanswering⟩ := hubL_answering hdata
  refine ⟨F, ?_⟩
  intro fuel hfuel rqs
  have hdijkstra := (dijkstra_answering hw hnn htotal).mono hP
  have hhub := (hanswering fuel hfuel).mono hP
  obtain ⟨responses, hserve, hall⟩ := serve_spec hdijkstra hnearest rqs (DijkstraRouter.sized_new g)
  obtain ⟨responses', hserve', hall'⟩ := serve_spec hhub hnearest rqs HubLRouter.sane_new
  refine ⟨responses, responses', hserve, hserve', hall, hall', ?_⟩
  apply forall₂_same ?_ hall hall'
  intro s t result result' h h'
  exact sameDistance_of_answers (hanswers s t result h) (hanswers s t result' h')

variable [LinearOrder κ] {S : Sphere δ κ}

/-- For a file that `Grid` and `LabelCreator.main` read, the two applications answer any
list of requests.  The points of a request stand for the nearest nodes, the routes are
shortest ones, and both have the same complaints and the same distances. -/
theorem serve_agrees (horder : ∀ ks, (entryOrder ks).Perm ks)
    (hmax : ∀ a b c d, S.getDistance a b c d < S.maxValue) {text : List Char} {nodes : Node δ}
    (hg : Grid.importFmiFile parseDouble entryOrder text = .ok (nodes, g)) (h : Routable g)
    (rnd : Nat → Nat) (hfit : LengthsFit parseDouble entryOrder rnd text) :
    ∃ nearest : δ → δ → Int,
      (∀ latitude longitude, getNearestGridNodeByCoordinates S nodes latitude longitude =
          .ok (nearest latitude longitude) ∧
        Nearest S nodes latitude longitude (nearest latitude longitude)) ∧
      ∃ H N, ∃ hids : NodeIds H N, ∃ F,
        main parseDouble entryOrder rnd text = .ok (nodes, H, N) ∧
        ∀ fuel, F ≤ fuel → ServeAlike g (Shown g nodes) nearest fuel H N hids := by
  have hw := Grid.importFmiFile_wellFormed horder hg
  have hcount := Grid.nodeCount_of_importFmiFile horder hg
  have hlong := Grid.longitude_of_importFmiFile horder hg
  choose nearest hnearest using fun latitude longitude =>
    getNearestGridNodeByCoordinates_spec (S := S) hlong hmax latitude longitude
  refine ⟨nearest, hnearest, ?_⟩
  have hlt : ∀ latitude longitude, nearest latitude longitude < g.nodeCount := by
    intro latitude longitude
    rw [hcount]
    exact (hnearest latitude longitude).2.bounds.2
  obtain ⟨htotal, H, N, hrun, hdata⟩ := main_spec horder hg h rnd hfit
  obtain ⟨F, halike⟩ := serveAlike_of_data hw (nonneg_of_routable h hw) htotal hdata
    (fun s t result hs _ hans => shown_of_answers hw hcount.symm hlong hs hans)
    (fun s t result hshown => hshown.1) hlt
  exact ⟨H, N, hdata.ids, F, hrun, halike⟩

/-- A flat world with the coordinates 0 to 9. -/
def flat : Sphere (Fin 10) Nat where
  intValue x := x.val
  getDistance a b c d := (a.val - c.val) + (c.val - a.val) + (b.val - d.val) + (d.val - b.val)
  maxValue := 1000

theorem wayGrid_routable : Routable wayGrid where
  notSingle := by decide
  fourEach := DynamicGrid.fourEach_iff.mpr (by decide)
  mirrored := by decide
  noLoop := by decide
  positive := by decide
  metric := wayGrid_metric

theorem serve_agrees_oneWay : ∃ nodes,
    Grid.importFmiFile Grid.parseDigit id DynamicGrid.oneWayText = .ok (nodes, wayGrid) ∧
    ∃ nearest : Fin 10 → Fin 10 → Int,
      (∀ latitude longitude, getNearestGridNodeByCoordinates flat nodes latitude longitude =
          .ok (nearest latitude longitude) ∧
        Nearest flat nodes latitude longitude (nearest latitude longitude)) ∧
      ∃ H N, ∃ hids : NodeIds H N, ∃ F,
        main Grid.parseDigit id (fun _ => 0) DynamicGrid.oneWayText = .ok (nodes, H, N) ∧
        ∀ fuel, F ≤ fuel → ServeAlike wayGrid (Shown wayGrid nodes) nearest fuel H N hids := by
  obtain ⟨⟨nodes, g⟩, hg, hway⟩ := exists_of_map_toOption
    (x := Grid.importFmiFile Grid.parseDigit id DynamicGrid.oneWayText)
    (p := fun r => decide (r.2 = wayGrid)) (by decide +kernel)
  obtain rfl : g = wayGrid := of_decide_eq_true hway
  have hfit : LengthsFit Grid.parseDigit id (fun _ => 0) DynamicGrid.oneWayText :=
    lengthsFit_of_run (by decide +kernel)
  have hmax : ∀ a b c d, flat.getDistance a b c d < flat.maxValue := by
    intro a b c d
    show (a.val - c.val) + (c.val - a.val) + (b.val - d.val) + (d.val - b.val) < 1000
    omega
  exact ⟨nodes, hg, serve_agrees (show ∀ ks : List Int, (id ks).Perm ks from List.Perm.refl) hmax
    hg wayGrid_routable (fun _ => 0) hfit⟩

end SearouterApplication

end SeaRouter
