import SeaRouter.DijkstraGrid.Grid
import SeaRouter.Lib.Search
import SeaRouter.Router.DijkstraHeap
import SeaRouter.Router.RoutingResult

/-!
# `router/DijkstraRouter.java`

The search keeps its state in four arrays that every call of `route` resets.
`SearchState` connects the arrays to the invariant of a label-setting search:
the nodes of `order` are touched, in the order in which they left the heap,
the heap holds the found nodes that are not touched, and the previous nodes of
the touched nodes form paths back to the start.

`route_spec` is the contract of `route`.
-/

namespace SeaRouter

open Java WGraph

/-- The fields of `DijkstraRouter`. -/
structure DijkstraRouter where
  currDistanceToNode : List Int
  previousNode : List Int
  nodeTouched : List Bool
  vertexHeap : DijkstraHeap
deriving DecidableEq, Repr

namespace DijkstraRouter

/-- `DijkstraRouter()`. -/
def new (g : Grid) : DijkstraRouter where
  currDistanceToNode := List.replicate g.nodeCount MAX_VALUE
  previousNode := List.replicate g.nodeCount (-1)
  nodeTouched := List.replicate g.nodeCount false
  vertexHeap := DijkstraHeap.new g.nodeCount

def resetState (r : DijkstraRouter) : DijkstraRouter where
  currDistanceToNode := List.replicate r.currDistanceToNode.length MAX_VALUE
  previousNode := List.replicate r.previousNode.length (-1)
  nodeTouched := List.replicate r.nodeTouched.length false
  vertexHeap := r.vertexHeap.resetState

/-- One iteration of the loop over the edges of `nodeToHandleId`. -/
def relaxEdge (g : Grid) (nodeToHandleId : Int) (r : DijkstraRouter) (neighbourEdgeId : Int) :
    Run DijkstraRouter := do
  let destinationVertexId ← rd g.destNode neighbourEdgeId
  if ← rd r.nodeTouched destinationVertexId then return r
  else
    let newDistance :=
      (← rd r.currDistanceToNode nodeToHandleId) + (← rd g.dist neighbourEdgeId)
    if newDistance < (← rd r.currDistanceToNode destinationVertexId) then
      let currDistanceToNode ← wr r.currDistanceToNode destinationVertexId newDistance
      let previousNode ← wr r.previousNode destinationVertexId nodeToHandleId
      let vertexHeap ← r.vertexHeap.add currDistanceToNode destinationVertexId
      return { r with
        currDistanceToNode := currDistanceToNode, previousNode := previousNode
        vertexHeap := vertexHeap }
    else return r

/-- One iteration of the search loop.  The flag is `routeFound`; the source
leaves the loop when it sets it. -/
def searchStep (g : Grid) (destNodeIdx : Int) (state : DijkstraRouter × Bool) :
    Run (DijkstraRouter × Bool) := do
  let r := state.1
  let (nodeToHandleId, vertexHeap) ← r.vertexHeap.getNext r.currDistanceToNode
  let nodeTouched ← wr r.nodeTouched nodeToHandleId true
  let r := { r with vertexHeap := vertexHeap, nodeTouched := nodeTouched }
  if nodeToHandleId = destNodeIdx then return (r, true)
  else
    let first ← rd g.offset nodeToHandleId
    let last ← rd g.offset (nodeToHandleId + 1)
    let r ← (indices first last).foldlM (relaxEdge g nodeToHandleId) r
    return (r, false)

def searchGuard (state : DijkstraRouter × Bool) : Run Bool :=
  return !state.1.vertexHeap.isEmpty && !state.2

/-- One iteration of the loop that gathers the path backwards. -/
def pathStep (previousNode : List Int) (state : Int × List Int) : Run (Int × List Int) := do
  let previousNodeIdx ← rd previousNode state.1
  return (previousNodeIdx, state.2 ++ [previousNodeIdx])

/-- The arrays with which the search of `route` begins. -/
def start (r : DijkstraRouter) (startNodeIdx : Int) : Run DijkstraRouter := do
  let r := r.resetState
  let currDistanceToNode ← wr r.currDistanceToNode startNodeIdx 0
  let previousNode ← wr r.previousNode startNodeIdx startNodeIdx
  let vertexHeap ← r.vertexHeap.add currDistanceToNode startNodeIdx
  return { r with
    currDistanceToNode := currDistanceToNode, previousNode := previousNode
    vertexHeap := vertexHeap }

/-- `route(startNodeIdx, destNodeIdx)`.  No loop runs more often than there are
nodes. -/
def route (g : Grid) (r : DijkstraRouter) (startNodeIdx destNodeIdx : Int) :
    Run RoutingResult := do
  let r ← start r startNodeIdx
  let (r, routeFound) ← whileLoop searchGuard (searchStep g destNodeIdx) g.nodeCount (r, false)
  if routeFound then
    let (_, path) ← whileLoop (fun s => return s.1 ≠ startNodeIdx) (pathStep r.previousNode)
      g.nodeCount (destNodeIdx, [destNodeIdx])
    let overallDistance ← rd r.currDistanceToNode destNodeIdx
    return RoutingResult.found path.reverse overallDistance
  else return RoutingResult.notFound

/-- The arrays have one element for each node. -/
structure Sized (g : Grid) (r : DijkstraRouter) : Prop where
  dist : r.currDistanceToNode.length = g.nodeCount
  prev : r.previousNode.length = g.nodeCount
  touched : r.nodeTouched.length = g.nodeCount
  heap : r.vertexHeap.heapPosition.length = g.nodeCount

theorem sized_new (g : Grid) : Sized g (new g) := by
  constructor <;> simp [new, DijkstraHeap.new]

/-! ## Calls one after the other -/

/-- The search of `route`, with the router that a later call finds. -/
def search (fuel : Nat) (g : Grid) (r : DijkstraRouter) (startNodeIdx destNodeIdx : Int) :
    Run (DijkstraRouter × Bool) := do
  let r ← start r startNodeIdx
  whileLoop searchGuard (searchStep g destNodeIdx) fuel (r, false)

/-- The end of `route`, which leaves the router as it is. -/
def extract (fuel : Nat) (startNodeIdx destNodeIdx : Int) (state : DijkstraRouter × Bool) :
    Run RoutingResult := do
  if state.2 then
    let (_, path) ← whileLoop (fun s => return s.1 ≠ startNodeIdx)
      (pathStep state.1.previousNode) fuel (destNodeIdx, [destNodeIdx])
    let overallDistance ← rd state.1.currDistanceToNode destNodeIdx
    return RoutingResult.found path.reverse overallDistance
  else return RoutingResult.notFound

theorem route_eq (g : Grid) (r : DijkstraRouter) (s t : Int) :
    route g r s t = search g.nodeCount g r s t >>= extract g.nodeCount s t := by
  unfold route search extract
  rw [bind_assoc]

/-- Nothing of an earlier call is left after `resetState`. -/
theorem Sized.resetState_eq {g : Grid} {r : DijkstraRouter} (h : Sized g r) :
    resetState r = resetState (new g) := by
  simp only [resetState, new, DijkstraHeap.resetState, DijkstraHeap.new, h.dist, h.prev, h.touched,
    h.heap, List.length_replicate]

theorem Sized.search_eq {g : Grid} {r : DijkstraRouter} (h : Sized g r) (fuel : Nat) (s t : Int) :
    search fuel g r s t = search fuel g (new g) s t := by
  unfold search start
  rw [h.resetState_eq]

theorem sized_start {g : Grid} {r r' : DijkstraRouter} (h : Sized g r) {s : Int}
    (hrun : start r s = .ok r') : Sized g r' := by
  unfold start at hrun
  simp only [bind_eq_ok, pure_eq_ok, Except.ok.injEq] at hrun
  obtain ⟨dist, hdist, prev, hprev, heap, hheap, rfl⟩ := hrun
  refine ⟨?_, ?_, ?_, ?_⟩
  · rw [length_of_wr hdist, resetState, List.length_replicate, h.dist]
  · rw [length_of_wr hprev, resetState, List.length_replicate, h.prev]
  · rw [resetState, List.length_replicate, h.touched]
  · rw [DijkstraHeap.add_length hheap, resetState, DijkstraHeap.resetState, List.length_replicate,
      h.heap]

theorem sized_relaxEdge {g : Grid} {r r' : DijkstraRouter} (h : Sized g r) {u e : Int}
    (hrun : relaxEdge g u r e = .ok r') : Sized g r' := by
  unfold relaxEdge at hrun
  rw [bind_eq_ok] at hrun
  obtain ⟨v, _, hrun⟩ := hrun
  rw [bind_eq_ok] at hrun
  obtain ⟨touched, _, hrun⟩ := hrun
  split_ifs at hrun with htouched
  · rw [pure_eq_ok, Except.ok.injEq] at hrun
    exact hrun ▸ h
  · simp only [bind_eq_ok] at hrun
    obtain ⟨d, _, l, _, d', _, hrun⟩ := hrun
    split_ifs at hrun with hlt
    · simp only [bind_eq_ok, pure_eq_ok, Except.ok.injEq] at hrun
      obtain ⟨dist, hdist, prev, hprev, heap, hheap, rfl⟩ := hrun
      exact ⟨(length_of_wr hdist).trans h.dist, (length_of_wr hprev).trans h.prev, h.touched,
        (DijkstraHeap.add_length hheap).trans h.heap⟩
    · rw [pure_eq_ok, Except.ok.injEq] at hrun
      exact hrun ▸ h

theorem sized_searchStep {g : Grid} {t : Int} {state state' : DijkstraRouter × Bool}
    (h : Sized g state.1) (hrun : searchStep g t state = .ok state') : Sized g state'.1 := by
  unfold searchStep at hrun
  simp only [bind_eq_ok] at hrun
  obtain ⟨⟨u, heap⟩, hnext, touched, htouched, hrun⟩ := hrun
  have hpop : Sized g { state.1 with vertexHeap := heap, nodeTouched := touched } :=
    ⟨h.dist, h.prev, (length_of_wr htouched).trans h.touched,
      (DijkstraHeap.getNext_length hnext).trans h.heap⟩
  split_ifs at hrun with hdest
  · rw [pure_eq_ok, Except.ok.injEq] at hrun
    exact hrun ▸ hpop
  · simp only [bind_eq_ok, pure_eq_ok, Except.ok.injEq] at hrun
    obtain ⟨first, _, last, _, r', hfold, rfl⟩ := hrun
    exact foldlM_inv (P := fun _ r => Sized g r) _ _ _ hpop hfold
      (fun _ e _ _ _ _ hr hrelax => sized_relaxEdge hr hrelax)

/-- The arrays of the router keep their lengths. -/
theorem sized_search {g : Grid} {r : DijkstraRouter} (h : Sized g r) {fuel : Nat} {s t : Int}
    {state : DijkstraRouter × Bool} (hrun : search fuel g r s t = .ok state) : Sized g state.1 := by
  unfold search at hrun
  rw [bind_eq_ok] at hrun
  obtain ⟨r₁, hstart, hloop⟩ := hrun
  exact (whileLoop_inv (I := fun state : DijkstraRouter × Bool => Sized g state.1)
    (fun _ _ hs _ hstep => sized_searchStep hs hstep) _ _ _ (sized_start h hstart) hloop).1

/-! ## Tentative distances -/

/-- The distance that the array holds for a node; `MAX_VALUE` means none. -/
def tent (a : List Int) (v : Int) : Option Int :=
  match rd a v with
  | .ok d => if d = MAX_VALUE then none else some d
  | .error _ => none

theorem tent_eq_some {a : List Int} {v d : Int} :
    tent a v = some d ↔ rd a v = .ok d ∧ d ≠ MAX_VALUE := by
  unfold tent
  cases h : rd a v with
  | error e => simp
  | ok x =>
    by_cases hx : x = MAX_VALUE
    · simp only [if_pos hx, Except.ok.injEq]
      constructor
      · intro h; simp at h
      · rintro ⟨rfl, h⟩; exact absurd hx h
    · simp only [if_neg hx, Option.some.injEq, Except.ok.injEq]
      constructor
      · rintro rfl; exact ⟨rfl, hx⟩
      · rintro ⟨rfl, _⟩; rfl

theorem rd_of_tent_none {a : List Int} {v : Int} (h0 : 0 ≤ v) (h1 : v < a.length)
    (h : tent a v = none) : rd a v = .ok MAX_VALUE := by
  obtain ⟨x, hx⟩ := exists_rd h0 h1
  unfold tent at h
  rw [hx] at h
  by_cases hm : x = MAX_VALUE
  · rw [hx, hm]
  · simp [hm] at h

theorem bounds_of_tent {a : List Int} {v d : Int} (h : tent a v = some d) :
    0 ≤ v ∧ v < a.length :=
  rd_bounds (tent_eq_some.mp h).1

theorem key_of_tent {a : List Int} {v d : Int} (h : tent a v = some d) :
    DijkstraHeap.key a v = d := by
  obtain ⟨h0, h1⟩ := bounds_of_tent h
  have h2 := DijkstraHeap.rd_dist h0 h1
  rw [(tent_eq_some.mp h).1, Except.ok.injEq] at h2
  exact h2.symm

theorem tent_set {a : List Int} {id d : Int} (h0 : 0 ≤ id) (h1 : id < a.length)
    (hd : d ≠ MAX_VALUE) :
    tent (a.set id.toNat d) = fun x => if x = id then some d else tent a x := by
  funext x
  unfold tent
  rw [rd_set h0 h1]
  by_cases hx : x = id
  · rw [if_pos hx, if_pos hx]
    simp [hd]
  · rw [if_neg hx, if_neg hx]

theorem tent_replicate (n : Nat) (v : Int) : tent (List.replicate n MAX_VALUE) v = none := by
  rw [Option.eq_none_iff_forall_ne_some]
  intro d hd
  obtain ⟨h1, h2⟩ := tent_eq_some.mp hd
  exact h2 (List.eq_of_mem_replicate (mem_of_rd h1))

/-! ## The state of the search -/

/-- Each node of the list is the previous node of the next one. -/
def Backtrack (previousNode : List Int) (p : List Int) : Prop :=
  p.IsChain fun a b => rd previousNode b = .ok a

/-- The arrays of the router in the search from `s`: `order` are the touched
nodes and `Q` is the heap. -/
structure SearchState (g : Grid) (s : Int) (r : DijkstraRouter) (order : List Int)
    (Q : Int → Prop) : Prop where
  sized : Sized g r
  heap : DijkstraHeap.Holds r.currDistanceToNode r.vertexHeap Q
    (fun x => g.IsNode x ∧ tent r.currDistanceToNode x = none)
  touched : ∀ x, g.IsNode x → rd r.nodeTouched x = .ok (decide (x ∈ order))
  nodes : ∀ x ∈ order, g.IsNode x
  disjoint : ∀ x, Q x → x ∉ order
  bound : ∀ x d, tent r.currDistanceToNode x = some d →
    d ≤ Grid.lengthFrom g.startNode g.dist order
  prev : ∀ x d, tent r.currDistanceToNode x = some d → x ≠ s →
    ∃ u a l, u ∈ order ∧ rd r.previousNode x = .ok u ∧
      tent r.currDistanceToNode u = some a ∧ g.HasEdge u x l ∧ a + l = d
  paths : ∀ x d, x ∈ order → tent r.currDistanceToNode x = some d →
    ∃ p, IsPath g.HasEdge p s x d ∧ (∀ y ∈ p, y ∈ order) ∧ p.Nodup ∧
      Backtrack r.previousNode p

/-- The same while the edges of the touched node `v` at distance `d` are
relaxed. -/
structure Relaxing (g : Grid) (s : Int) (order : List Int) (v d : Int) (D₀ : Int → Option Int)
    (Q₀ : Int → Prop) (out : List (Int × Int)) (r : DijkstraRouter) (Q : Int → Prop) :
    Prop where
  state : SearchState g s r order Q
  current : tent r.currDistanceToNode v = some d
  member : v ∈ order
  relax : RelaxInv d D₀ Q₀ out (tent r.currDistanceToNode) Q
  cover : ∀ x b, tent r.currDistanceToNode x = some b → x ∈ order ∨ Q x
  near : ∀ x ∈ order, ∃ b, tent r.currDistanceToNode x = some b ∧ b ≤ d

variable {g : Grid} {s : Int} {order : List Int} {v d : Int} {D₀ : Int → Option Int}
  {Q₀ Q : Int → Prop} {out : List (Int × Int)} {r : DijkstraRouter}

/-- The state after the distance of an untouched node was lowered. -/
theorem SearchState.improve (h : SearchState g s r order Q) {w l : Int} {h' : DijkstraHeap}
    (hv : v ∈ order) (hcur : tent r.currDistanceToNode v = some d) (hw : g.IsNode w)
    (hwo : w ∉ order) (hedge : g.HasEdge v w l) (hmax : d + l < MAX_VALUE)
    (hroom : d + l ≤ Grid.lengthFrom g.startNode g.dist order) (hws : w ≠ s)
    (hheap : DijkstraHeap.Holds (r.currDistanceToNode.set w.toNat (d + l)) h'
      (fun x => Q x ∨ x = w)
      (fun x => (g.IsNode x ∧ tent r.currDistanceToNode x = none) ∧ x ≠ w)) :
    SearchState g s
      { r with
        currDistanceToNode := r.currDistanceToNode.set w.toNat (d + l)
        previousNode := r.previousNode.set w.toNat v
        vertexHeap := h' } order (fun x => Q x ∨ x = w) := by
  have hwl : w < r.currDistanceToNode.length := by rw [h.sized.dist]; exact hw.2
  have hwp : w < r.previousNode.length := by rw [h.sized.prev]; exact hw.2
  have htent := tent_set (a := r.currDistanceToNode) hw.1 hwl (ne_of_lt hmax)
  have hold : ∀ x ∈ order, x ≠ w := fun x hx he => hwo (he ▸ hx)
  have hprev : ∀ x, x ≠ w → rd (r.previousNode.set w.toNat v) x = rd r.previousNode x := by
    intro x hx
    rw [rd_set hw.1 hwp, if_neg hx]
  constructor
  · refine ⟨by rw [List.length_set, h.sized.dist], by rw [List.length_set, h.sized.prev],
      h.sized.touched, ?_⟩
    obtain ⟨ids, rest, hl, _⟩ := hheap
    rw [hl.posLength, List.length_set, h.sized.dist]
  · obtain ⟨ids, rest, hl, hsize, hQ, hF, hh⟩ := hheap
    refine ⟨ids, rest, hl, hsize, hQ, ?_, hh⟩
    rintro x ⟨hx, hnone⟩
    rw [htent] at hnone
    by_cases hxw : x = w
    · simp [hxw] at hnone
    · simp only [if_neg hxw] at hnone
      exact hF x ⟨⟨hx, hnone⟩, hxw⟩
  · exact h.touched
  · exact h.nodes
  · rintro x (hx | rfl)
    · exact h.disjoint x hx
    · exact hwo
  · intro x b hb
    rw [htent] at hb
    by_cases hxw : x = w
    · simp only [if_pos hxw, Option.some.injEq] at hb
      omega
    · simp only [if_neg hxw] at hb
      exact h.bound x b hb
  · intro x b hb hxs
    rw [htent] at hb ⊢
    by_cases hxw : x = w
    · subst hxw
      simp only [if_pos, Option.some.injEq] at hb
      refine ⟨v, d, l, hv, ?_, ?_, hedge, hb⟩
      · rw [rd_set hw.1 hwp, if_pos rfl]
      · simp only [if_neg (hold v hv)]
        exact hcur
    · simp only [if_neg hxw] at hb
      obtain ⟨u, a, m, hu, hpu, hau, he, hsum⟩ := h.prev x b hb hxs
      refine ⟨u, a, m, hu, ?_, ?_, he, hsum⟩
      · rw [hprev x hxw]
        exact hpu
      · simp only [if_neg (hold u hu)]
        exact hau
  · intro x b hx hb
    rw [htent] at hb
    simp only [if_neg (hold x hx)] at hb
    obtain ⟨p, hp, hsub, hnd, hback⟩ := h.paths x b hx hb
    refine ⟨p, hp, hsub, hnd, ?_⟩
    refine List.IsChain.imp_of_mem_imp (fun a c _ hc hac => ?_) hback
    rw [hprev c (hold c (hsub c hc))]
    exact hac

/-- One iteration of the loop over the edges of `v`. -/
theorem relaxEdge_spec (hw : g.WellFormed) (hnn : ∀ l ∈ g.dist, 0 ≤ l)
    (h : Relaxing g s order v d D₀ Q₀ out r Q) (hs : s ∈ order) {e w l : Int}
    (hes : rd g.startNode e = .ok v) (hed : rd g.destNode e = .ok w)
    (hel : rd g.dist e = .ok l) (hmax : w ∉ order → d + l < MAX_VALUE)
    (hroom : d + l ≤ Grid.lengthFrom g.startNode g.dist order) :
    ∃ r' Q', relaxEdge g v r e = .ok r' ∧
      Relaxing g s order v d D₀ Q₀ (out ++ [(w, l)]) r' Q' := by
  have hedge : g.HasEdge v w l := ⟨e, hes, hed, hel⟩
  have hwn : g.IsNode w := (hedge.isNode hw).2
  have hl0 : 0 ≤ l := hnn l (mem_of_rd hel)
  have hvd := (tent_eq_some.mp h.current).1
  have hskip : ∀ b, tent r.currDistanceToNode w = some b → b ≤ d + l →
      Relaxing g s order v d D₀ Q₀ (out ++ [(w, l)]) r Q := by
    intro b hb hle
    refine ⟨h.state, h.current, h.member, h.relax.skip hb hle ?_ ?_, h.cover, h.near⟩
    · intro x
      constructor
      · exact Or.inl
      · rintro (hx | ⟨rfl, hx⟩)
        · exact hx
        · exact hx
    · exact Or.inl
  unfold relaxEdge
  simp only [hed, ok_bind, h.state.touched w hwn]
  by_cases hwo : w ∈ order
  · -- a touched node is not looked at
    obtain ⟨b, hb, hbd⟩ := h.near w hwo
    refine ⟨r, Q, by simp [hwo], hskip b hb (by omega)⟩
  · have hwlen : w < r.currDistanceToNode.length := by rw [h.state.sized.dist]; exact hwn.2
    have hmax := hmax hwo
    simp only [hwo, decide_false, Bool.false_eq_true, if_false, hvd, hel, ok_bind]
    have himprove : (∀ b, tent r.currDistanceToNode w = some b → d + l < b) →
        ∃ r' Q', ((do
          let currDistanceToNode ← wr r.currDistanceToNode w (d + l)
          let previousNode ← wr r.previousNode w v
          let vertexHeap ← r.vertexHeap.add currDistanceToNode w
          return { r with
            currDistanceToNode := currDistanceToNode, previousNode := previousNode
            vertexHeap := vertexHeap }) : Run DijkstraRouter) = .ok r' ∧
          Relaxing g s order v d D₀ Q₀ (out ++ [(w, l)]) r' Q' := by
      intro hlt
      have hid : Q w ∧ d + l ≤ DijkstraHeap.key r.currDistanceToNode w ∨
          g.IsNode w ∧ tent r.currDistanceToNode w = none := by
        cases hb : tent r.currDistanceToNode w with
        | none => exact Or.inr ⟨hwn, rfl⟩
        | some b =>
          refine Or.inl ⟨(h.cover w b hb).resolve_left hwo, ?_⟩
          rw [key_of_tent hb]
          exact le_of_lt (hlt b hb)
      obtain ⟨h', hadd, hheap⟩ := DijkstraHeap.add_spec h.state.heap w (d + l) hid
      have htent := tent_set (a := r.currDistanceToNode) hwn.1 hwlen (ne_of_lt hmax)
      refine ⟨{ r with
          currDistanceToNode := r.currDistanceToNode.set w.toNat (d + l)
          previousNode := r.previousNode.set w.toNat v
          vertexHeap := h' }, fun x => Q x ∨ x = w, ?_, ?_⟩
      · rw [wr_of_bounds _ hwn.1 hwlen, ok_bind,
          wr_of_bounds _ hwn.1 (by rw [h.state.sized.prev]; exact hwn.2), ok_bind, hadd]
        rfl
      · refine ⟨h.state.improve h.member h.current hwn hwo hedge hmax hroom
          (fun he => hwo (he ▸ hs)) hheap, ?_, h.member, ?_, ?_, ?_⟩
        · rw [htent]
          simp only [if_neg (fun he => hwo (he ▸ h.member) : v ≠ w)]
          exact h.current
        · rw [htent]
          exact h.relax.improve hlt
        · intro x b hb
          rw [htent] at hb
          by_cases hxw : x = w
          · exact Or.inr (Or.inr hxw)
          · simp only [if_neg hxw] at hb
            rcases h.cover x b hb with h1 | h1
            · exact Or.inl h1
            · exact Or.inr (Or.inl h1)
        · intro x hx
          rw [htent]
          simp only [if_neg (fun he => hwo (he ▸ hx) : x ≠ w)]
          exact h.near x hx
    cases hb : tent r.currDistanceToNode w with
    | none =>
      rw [rd_of_tent_none hwn.1 hwlen hb, ok_bind, if_pos hmax]
      exact himprove (by simp [hb])
    | some b =>
      rw [(tent_eq_some.mp hb).1, ok_bind]
      split_ifs with hlt
      · exact himprove (by simp [hb, hlt])
      · exact ⟨r, Q, rfl, hskip b hb (by omega)⟩

/-- The state after `getNext` took the node `v` out of the heap. -/
theorem SearchState.touch (hnn : ∀ l ∈ g.dist, 0 ≤ l) (h : SearchState g s r order Q)
    (hsrc : tent r.currDistanceToNode s = some 0) (hd : tent r.currDistanceToNode v = some d)
    (hQv : Q v) {h' : DijkstraHeap}
    (hheap : DijkstraHeap.Holds r.currDistanceToNode h' (fun x => Q x ∧ x ≠ v)
      (fun x => g.IsNode x ∧ tent r.currDistanceToNode x = none)) :
    SearchState g s
      { r with vertexHeap := h', nodeTouched := r.nodeTouched.set v.toNat true }
      (order ++ [v]) (fun x => Q x ∧ x ≠ v) := by
  have hvr := bounds_of_tent hd
  rw [h.sized.dist] at hvr
  have hvo : v ∉ order := h.disjoint v hQv
  constructor
  · refine ⟨h.sized.dist, h.sized.prev, by rw [List.length_set, h.sized.touched], ?_⟩
    obtain ⟨ids, rest, hl, _⟩ := hheap
    rw [hl.posLength, h.sized.dist]
  · exact hheap
  · intro x hx
    rw [rd_set hvr.1 (by rw [h.sized.touched]; exact hvr.2)]
    by_cases hxv : x = v
    · simp [hxv]
    · rw [if_neg hxv, h.touched x hx]
      simp [hxv]
  · intro x hx
    rcases List.mem_append.mp hx with hx | hx
    · exact h.nodes x hx
    · rw [List.mem_singleton.mp hx]
      exact hvr
  · rintro x ⟨hQ, hne⟩ hx
    rcases List.mem_append.mp hx with hx | hx
    · exact h.disjoint x hQ hx
    · exact hne (List.mem_singleton.mp hx)
  · intro x b hb
    have h1 := h.bound x b hb
    have h2 := Grid.lengthFrom_mono (fun x (hx : x ∈ order) => List.mem_append_left [v] hx)
      g.startNode g.dist hnn
    omega
  · intro x b hb hxs
    obtain ⟨u, a, l, hu, hrest⟩ := h.prev x b hb hxs
    exact ⟨u, a, l, List.mem_append_left _ hu, hrest⟩
  · intro x b hx hb
    rcases List.mem_append.mp hx with hx | hx
    · obtain ⟨p, hp, hsub, hrest⟩ := h.paths x b hx hb
      exact ⟨p, hp, fun y hy => List.mem_append_left _ (hsub y hy), hrest⟩
    · obtain rfl := List.mem_singleton.mp hx
      by_cases hxs : x = s
      · subst hxs
        have hb0 : b = 0 := by
          rw [hsrc, Option.some.injEq] at hb
          exact hb.symm
        subst hb0
        exact ⟨[x], IsPath.nil x, by simp, by simp, List.isChain_singleton x⟩
      · -- the path of the previous node and one more edge
        obtain ⟨u, a, l, hu, hpu, hau, he, rfl⟩ := h.prev x b hb hxs
        obtain ⟨p, hp, hsub, hnd, hback⟩ := h.paths u a hu hau
        refine ⟨p ++ [x], hp.snoc he, ?_, ?_, ?_⟩
        · intro y hy
          rcases List.mem_append.mp hy with hy | hy
          · exact List.mem_append_left _ (hsub y hy)
          · exact List.mem_append_right _ hy
        · rw [List.nodup_append]
          refine ⟨hnd, List.nodup_singleton x, ?_⟩
          intro y hy z hz hyz
          rw [List.mem_singleton.mp hz] at hyz
          exact hvo (hyz ▸ hsub y hy)
        · refine List.isChain_append.mpr ⟨hback, List.isChain_singleton x, ?_⟩
          intro y hy z hz
          rw [hp.getLast?_eq, Option.mem_some_iff] at hy
          obtain rfl : x = z := by simpa using hz
          rw [← hy]
          exact hpu

/-- The loop over all edges of the node `v` that left the heap. -/
theorem relaxEdges_spec (hw : g.WellFormed) (hnn : ∀ l ∈ g.dist, 0 ≤ l)
    (hmax : ∀ w l, g.HasEdge v w l → w ∉ order ++ [v] → d + l < MAX_VALUE)
    (h : Relaxing g s (order ++ [v]) v d D₀ Q₀ [] r Q) (hs : s ∈ order ++ [v]) (hvo : v ∉ order)
    (hd : d ≤ Grid.lengthFrom g.startNode g.dist order) :
    ∃ r' Q' out, (∀ w l, g.HasEdge v w l ↔ (w, l) ∈ out) ∧
      (indices (rank g.startNode v) (rank g.startNode (v + 1))).foldlM (relaxEdge g v) r = .ok r' ∧
      Relaxing g s (order ++ [v]) v d D₀ Q₀ out r' Q' := by
  obtain ⟨r', hrun, out, Q', hout, hrel⟩ := foldlM_spec (f := relaxEdge g v)
    (P := fun pre r' => ∃ out Q',
      (∀ w l, (∃ e ∈ pre, rd g.destNode e = .ok w ∧ rd g.dist e = .ok l) ↔ (w, l) ∈ out) ∧
      Relaxing g s (order ++ [v]) v d D₀ Q₀ out r' Q')
    (indices (rank g.startNode v) (rank g.startNode (v + 1))) r
    ⟨[], Q, by simp, h⟩ (by
      rintro pre e post r' hsplit ⟨out, Q', hout, hrel⟩
      obtain ⟨w, l, hes, hed, hel⟩ := hw.exists_edge
        (show e ∈ indices (rank g.startNode v) (rank g.startNode (v + 1)) by
          rw [hsplit]; simp)
      have hroom : d + l ≤ Grid.lengthFrom g.startNode g.dist (order ++ [v]) := by
        have := Grid.lengthFrom_snoc order hvo g.startNode g.dist e.toNat l hnn
          (rd_eq_ok.mp hes).2 (rd_eq_ok.mp hel).2
        omega
      obtain ⟨r'', Q'', hstep, hrel'⟩ := relaxEdge_spec hw hnn hrel hs hes hed hel
        (hmax w l ⟨e, hes, hed, hel⟩) hroom
      refine ⟨r'', hstep, out ++ [(w, l)], Q'', ?_, hrel'⟩
      intro w' l'
      rw [List.mem_append, ← hout w' l']
      constructor
      · rintro ⟨e', he', h1, h2⟩
        rcases List.mem_append.mp he' with he' | he'
        · exact Or.inl ⟨e', he', h1, h2⟩
        · rw [List.mem_singleton.mp he', hed, Except.ok.injEq] at h1
          rw [List.mem_singleton.mp he', hel, Except.ok.injEq] at h2
          exact Or.inr (by simp [h1, h2])
      · rintro (⟨e', he', h1, h2⟩ | h1)
        · exact ⟨e', List.mem_append_left _ he', h1, h2⟩
        · obtain ⟨rfl, rfl⟩ : w' = w ∧ l' = l := by simpa using h1
          exact ⟨e, by simp, hed, hel⟩)
  refine ⟨r', Q', out, ?_, hrun, hrel⟩
  intro w l
  rw [← hout w l]
  constructor
  · rintro ⟨e, hes, hed, hel⟩
    exact ⟨e, hw.mem_indices_of_start hes, hed, hel⟩
  · rintro ⟨e, he, hed, hel⟩
    obtain ⟨_, _, hes, _⟩ := hw.exists_edge he
    exact ⟨e, hes, hed, hel⟩

/-! ## The search loop -/

/-- The invariant of the search loop. -/
structure LoopInv (g : Grid) (s t : Int) (r : DijkstraRouter) (routeFound : Bool)
    (order : List Int) (Q : Int → Prop) : Prop where
  state : SearchState g s r order Q
  source : tent r.currDistanceToNode s = some 0
  started : s ∈ order ∨ ∀ x, Q x → x = s
  searching : routeFound = false →
    SearchInv g.HasEdge s (tent r.currDistanceToNode) (· ∈ order) Q ∧ t ∉ order
  arrived : routeFound = true → t ∈ order ∧
    ∃ d, tent r.currDistanceToNode t = some d ∧ IsDist g.HasEdge s t d

theorem nonneg_of_hasEdge (hnn : ∀ l ∈ g.dist, 0 ≤ l) (u v l : Int) (h : g.HasEdge u v l) :
    0 ≤ l := by
  obtain ⟨e, _, _, hl⟩ := h
  exact hnn l (mem_of_rd hl)

theorem count_touch {r : DijkstraRouter} {v : Int}
    (h : rd r.nodeTouched v = .ok false) :
    (r.nodeTouched.set v.toNat true).count false < r.nodeTouched.count false := by
  obtain ⟨h0, hv⟩ := rd_eq_ok.mp h
  obtain ⟨hlt, hv⟩ := List.getElem?_eq_some_iff.mp hv
  have hpos : 0 < r.nodeTouched.count false := List.count_pos_iff.mpr (mem_of_rd h)
  rw [List.count_set hlt, hv, if_pos (by decide), if_neg (by decide)]
  omega

/-- The sums that the search from `s` forms are ints: they add an edge to the distance
of a node that is touched after `order`, and the edge leads to no nearer node. -/
def Room (g : Grid) (s : Int) : Prop :=
  ∀ order v d w l, IsDist g.HasEdge s v d → v ∉ order →
    d ≤ Grid.lengthFrom g.startNode g.dist order → g.HasEdge v w l →
    (∀ L, Walk g.HasEdge s w L → d ≤ L) → d + l < MAX_VALUE

theorem room_of_total (hnn : ∀ l ∈ g.dist, 0 ≤ l) (htotal : g.dist.sum < MAX_VALUE) (s : Int) :
    Room g s := by
  intro order v d w l _ hvo hd hedge _
  obtain ⟨e, hes, _, hel⟩ := hedge
  have hsnoc := Grid.lengthFrom_snoc order hvo g.startNode g.dist e.toNat l hnn
    (rd_eq_ok.mp hes).2 (rd_eq_ok.mp hel).2
  have hle := Grid.lengthFrom_le (order ++ [v]) g.startNode g.dist hnn
  omega

/-- One iteration of the search loop. -/
theorem searchStep_spec (hw : g.WellFormed) (hnn : ∀ l ∈ g.dist, 0 ≤ l)
    (hfit : Room g s) {t : Int} (h : LoopInv g s t r false order Q)
    (hne : r.vertexHeap.isEmpty = false) :
    ∃ r' b order' Q', searchStep g t (r, false) = .ok (r', b) ∧ LoopInv g s t r' b order' Q' ∧
      r'.nodeTouched.count false < r.nodeTouched.count false := by
  obtain ⟨hinv, hto⟩ := h.searching rfl
  have hE := nonneg_of_hasEdge hnn
  obtain ⟨v, heap', hnext, hQv, hminKey, hheap⟩ := DijkstraHeap.getNext_spec h.state.heap hne
  obtain ⟨d, hd⟩ := hinv.queued v hQv
  have hvr := bounds_of_tent hd
  rw [h.state.sized.dist] at hvr
  have hvo : v ∉ order := h.state.disjoint v hQv
  have hmin : ∀ w b, Q w → tent r.currDistanceToNode w = some b → d ≤ b := by
    intro w b hQw hb
    have := hminKey w hQw
    rwa [key_of_tent hd, key_of_tent hb] at this
  have htouch := h.state.touch hnn h.source hd hQv hheap
  have hwr : wr r.nodeTouched v true = .ok (r.nodeTouched.set v.toNat true) :=
    wr_of_bounds _ hvr.1 (by rw [h.state.sized.touched]; exact hvr.2)
  have huntouched : rd r.nodeTouched v = .ok false := by
    rw [h.state.touched v hvr]
    simp [hvo]
  have hs : s ∈ order ++ [v] := by
    rcases h.started with hs | hs
    · exact List.mem_append_left _ hs
    · rw [hs v hQv]
      simp
  unfold searchStep
  simp only [hnext, ok_bind, hwr]
  by_cases hvt : v = t
  · rw [if_pos hvt]
    refine ⟨_, _, order ++ [v], _, rfl, ⟨htouch, h.source, Or.inl hs, by simp, ?_⟩,
      count_touch huntouched⟩
    intro _
    rw [← hvt]
    exact ⟨by simp, d, hd, hinv.isDist_of_min hE hd hmin⟩
  · rw [if_neg hvt]
    have hstart : Relaxing g s (order ++ [v]) v d (tent r.currDistanceToNode)
        (fun x => Q x ∧ x ≠ v) []
        { r with vertexHeap := heap', nodeTouched := r.nodeTouched.set v.toNat true }
        (fun x => Q x ∧ x ≠ v) := by
      refine ⟨htouch, hd, by simp, relaxInv_nil _ _ _, ?_, ?_⟩
      · intro x b hb
        rcases hinv.cover x b hb with hx | hx
        · exact Or.inl (List.mem_append_left _ hx)
        · by_cases hxv : x = v
          · exact Or.inl (by simp [hxv])
          · exact Or.inr ⟨hx, hxv⟩
      · intro x hx
        rcases List.mem_append.mp hx with hx | hx
        · obtain ⟨b, hb⟩ := hinv.settled x hx
          exact ⟨b, hb, hinv.mono x v b d hx hQv hb hd⟩
        · rw [List.mem_singleton.mp hx]
          exact ⟨d, hd, le_refl d⟩
    have hmax : ∀ w l, g.HasEdge v w l → w ∉ order ++ [v] → d + l < MAX_VALUE := by
      intro w l hedge hwo
      apply hfit order v d w l (hinv.isDist_of_min hE hd hmin) hvo (h.state.bound v d hd) hedge
      intro L hL
      rcases hinv.frontier hE hL 0 hinv.source with ⟨c, hc, _⟩ | ⟨y, b, hQ, hb, hle⟩
      · exact absurd (List.mem_append_left _ hc) hwo
      · have := hmin y b hQ hb
        omega
    obtain ⟨r', Q', out, hout, hrun, hrel⟩ := relaxEdges_spec hw hnn hmax hstart hs hvo
      (h.state.bound v d hd)
    have hpop := hinv.pop_relax hE hQv hd hmin hout (fun _ => Iff.rfl) hrel.relax
    refine ⟨r', false, order ++ [v], Q', ?_, ⟨hrel.state, ?_, Or.inl hs, ?_, by simp⟩, ?_⟩
    · rw [hw.rd_offset hvr.1 (by omega), ok_bind, hw.rd_offset (by omega) (by omega), ok_bind,
        hrun]
      rfl
    · exact hpop.source
    · intro _
      refine ⟨?_, ?_⟩
      · simpa only [List.mem_append, List.mem_singleton] using hpop
      · rw [List.mem_append, List.mem_singleton]
        rintro (h1 | h1)
        · exact hto h1
        · exact hvt h1.symm
    · -- the loop over the edges touches no node
      have hsame : r'.nodeTouched = r.nodeTouched.set v.toNat true := by
        refine List.ext_getElem? fun n => ?_
        rcases Nat.lt_or_ge n g.nodeCount with hn | hn
        · have h1 := hrel.state.touched n ⟨by omega, by omega⟩
          have h2 := htouch.touched n ⟨by omega, by omega⟩
          rw [getElem?_of_rd h1, getElem?_of_rd h2]
        · rw [List.getElem?_eq_none (by rw [hrel.state.sized.touched]; exact hn),
            List.getElem?_eq_none (by rw [List.length_set, h.state.sized.touched]; exact hn)]
      rw [hsame]
      exact count_touch huntouched

/-- The whole search: it ends with `routeFound` exactly when the heap did not
run empty before `t` left it. -/
theorem search_spec (hw : g.WellFormed) (hnn : ∀ l ∈ g.dist, 0 ≤ l)
    (hfit : Room g s) {t : Int} (h : LoopInv g s t r false order Q) :
    ∃ r' b order' Q', whileLoop searchGuard (searchStep g t) g.nodeCount (r, false)
        = .ok (r', b) ∧ LoopInv g s t r' b order' Q' ∧ (b = false → ∀ x, ¬ Q' x) := by
  have hstep : ∀ st : DijkstraRouter × Bool, (∃ order Q, LoopInv g s t st.1 st.2 order Q) →
      searchGuard st = .ok true → ∃ st', searchStep g t st = .ok st' ∧
        (∃ order Q, LoopInv g s t st'.1 st'.2 order Q) ∧
        st'.1.nodeTouched.count false < st.1.nodeTouched.count false := by
    rintro ⟨r, b⟩ ⟨order, Q, hinv⟩ hguard
    simp only [searchGuard, pure_eq_ok, Except.ok.injEq, Bool.and_eq_true,
      Bool.not_eq_true'] at hguard
    obtain ⟨hne, rfl⟩ := hguard
    obtain ⟨r', b', order', Q', hrun, hinv', hlt⟩ := searchStep_spec hw hnn hfit hinv hne
    exact ⟨(r', b'), hrun, ⟨order', Q', hinv'⟩, hlt⟩
  obtain ⟨⟨r', b⟩, hrun, ⟨order', Q', hinv⟩, hguard⟩ := whileLoop_spec
    (fun st _ => ⟨_, rfl⟩) hstep g.nodeCount (r, false) ⟨order, Q, h⟩
    (by rw [← h.state.sized.touched]; exact List.count_le_length)
  refine ⟨r', b, order', Q', hrun, hinv, ?_⟩
  rintro rfl
  simp only [Except.ok.injEq, Bool.not_false, Bool.and_true, Bool.not_eq_false'] at hguard
  exact (DijkstraHeap.isEmpty_iff hinv.state.heap).mp hguard

/-! ## The path -/

/-- The loop that follows the previous nodes back to the start. -/
theorem pathLoop_spec {previousNode : List Int} {s : Int} (p : List Int) :
    ∀ (x : Int) (acc : List Int) (fuel : Nat), Backtrack previousNode p → p.Nodup →
      p.head? = some s → p.getLast? = some x → p.length ≤ fuel + 1 →
      whileLoop (fun st : Int × List Int => return st.1 ≠ s) (pathStep previousNode) fuel (x, acc)
        = .ok (s, acc ++ p.dropLast.reverse) := by
  induction p using List.reverseRecOn with
  | nil =>
    intro x acc fuel _ _ hhead
    simp at hhead
  | append_singleton q x ih =>
    intro x' acc fuel hback hnd hhead hlast hfuel
    obtain rfl : x = x' := by simpa using hlast
    rcases List.eq_nil_or_concat q with rfl | ⟨q', y, rfl⟩
    · obtain rfl : x = s := by simpa using hhead
      rw [whileLoop_of_false (by simp)]
      simp
    · simp only [List.concat_eq_append] at *
      obtain ⟨hbackq, _, hlink⟩ := List.isChain_append.mp hback
      have hprev : rd previousNode x = .ok y := hlink y (by simp) x (by simp)
      have hhead' : (q' ++ [y]).head? = some s := by
        cases q' with
        | nil => simpa using hhead
        | cons z zs => simpa using hhead
      have hne : x ≠ s := by
        rintro rfl
        rw [List.nodup_append] at hnd
        exact hnd.2.2 x (List.mem_of_mem_head? hhead') x (by simp) rfl
      obtain ⟨n, rfl⟩ : ∃ n, fuel = n + 1 := by
        refine ⟨fuel - 1, ?_⟩
        simp at hfuel
        omega
      rw [whileLoop_of_true (r := (y, acc ++ [y])) (by simp [hne]) (by
        simp [pathStep, hprev])]
      rw [ih y (acc ++ [y]) n hbackq (List.nodup_append.mp hnd).1 hhead' (by simp) (by
        simp at hfuel ⊢
        omega)]
      simp

theorem length_le_nodeCount {p : List Int} (hnd : p.Nodup) (hp : ∀ x ∈ p, g.IsNode x) :
    p.length ≤ g.nodeCount := by
  have hsub : p ⊆ (List.range g.nodeCount).map (fun n : Nat => (n : Int)) := by
    intro x hx
    obtain ⟨h0, h1⟩ := hp x hx
    rw [List.mem_map]
    exact ⟨x.toNat, by rw [List.mem_range]; omega, by omega⟩
  have := (hnd.subperm hsub).length_le
  simpa using this

/-! ## The contract of `route` -/

theorem start_spec (hr : Sized g r) {t : Int} (hs : g.IsNode s) :
    ∃ r', start r s = .ok r' ∧ LoopInv g s t r' false [] (fun x => False ∨ x = s) := by
  have hlen : s < (List.replicate r.currDistanceToNode.length MAX_VALUE).length := by
    rw [List.length_replicate, hr.dist]
    exact hs.2
  have hreset := DijkstraHeap.resetState_holds
    (List.replicate r.currDistanceToNode.length MAX_VALUE) (h := r.vertexHeap)
    (by rw [List.length_replicate, hr.heap, hr.dist])
  obtain ⟨h', hadd, hheap⟩ := DijkstraHeap.add_spec hreset s 0
    (Or.inr ⟨hs.1, hlen⟩)
  have htent : tent ((List.replicate r.currDistanceToNode.length MAX_VALUE).set s.toNat 0)
      = fun x => if x = s then some 0 else none := by
    rw [tent_set hs.1 hlen (by decide)]
    funext x
    rw [tent_replicate]
  have hinv := searchInv_init g.HasEdge s
  rw [← htent] at hinv
  refine ⟨{ r.resetState with
      currDistanceToNode := (List.replicate r.currDistanceToNode.length MAX_VALUE).set s.toNat 0
      previousNode := (List.replicate r.previousNode.length (-1)).set s.toNat s
      vertexHeap := h' }, ?_, ⟨?_, ?_, ?_, ?_, by simp⟩⟩
  · unfold start
    simp only [resetState]
    rw [wr_of_bounds _ hs.1 hlen, ok_bind,
      wr_of_bounds _ hs.1 (by rw [List.length_replicate, hr.prev]; exact hs.2), ok_bind, hadd]
    rfl
  · constructor
    · refine ⟨by simp [hr.dist], by simp [hr.prev], by simp [resetState, hr.touched], ?_⟩
      obtain ⟨ids, rest, hl, _⟩ := hheap
      rw [hl.posLength]
      simp [hr.dist]
    · obtain ⟨ids, rest, hl, hsize, hQ, hF, hh⟩ := hheap
      refine ⟨ids, rest, hl, hsize, hQ, ?_, hh⟩
      rintro x ⟨hx, hnone⟩
      rw [htent] at hnone
      refine hF x ⟨⟨hx.1, ?_⟩, ?_⟩
      · rw [List.length_replicate, hr.dist]
        exact hx.2
      · rintro rfl
        simp at hnone
    · intro x hx
      rw [rd_eq_ok]
      refine ⟨hx.1, ?_⟩
      have hxl : x.toNat < r.nodeTouched.length := by
        obtain ⟨h0, h1⟩ := hx
        rw [hr.touched]
        omega
      simp [resetState, hxl]
    · simp
    · simp
    · intro x d hd
      rw [htent] at hd
      by_cases hx : x = s
      · simp only [if_pos hx, Option.some.injEq] at hd
        rw [← hd, Grid.lengthFrom]
        simp
      · simp [hx] at hd
    · intro x d hd hxs
      rw [htent] at hd
      simp [hxs] at hd
    · simp
  · rw [htent]
    simp
  · exact Or.inr fun x hx => by simpa using hx
  · intro _
    refine ⟨?_, by simp⟩
    simpa using hinv

/-- Whatever its arrays held before, the router finds a shortest path between
any two nodes, or says that there is none. -/
theorem route_of_room (hw : g.WellFormed) (hnn : ∀ l ∈ g.dist, 0 ≤ l) {s t : Int}
    (hfit : Room g s) (hr : Sized g r) (hs : g.IsNode s) :
    ∃ result, route g r s t = .ok result ∧
      (result.routeFound = true ↔ ∃ L, Walk g.HasEdge s t L) ∧
      (result.routeFound = true → IsDist g.HasEdge s t result.overallDistance ∧
        IsPath g.HasEdge result.path s t result.overallDistance) := by
  obtain ⟨r₀, hstart, hinit⟩ := start_spec hr (t := t) hs
  obtain ⟨r', b, order, Q, hrun, hinv, hempty⟩ := search_spec hw hnn hfit hinit
  unfold route
  simp only [hstart, hrun, ok_bind]
  cases b with
  | false =>
    refine ⟨RoutingResult.notFound, rfl, ?_, by simp [RoutingResult.notFound]⟩
    simp only [RoutingResult.notFound, Bool.false_eq_true, false_iff]
    rintro ⟨L, hL⟩
    obtain ⟨hsearch, hto⟩ := hinv.searching rfl
    obtain ⟨d, hd⟩ := exists_isDist (nonneg_of_hasEdge hnn) hL
    have hD := (hsearch.isDist_of_empty (nonneg_of_hasEdge hnn) (hempty rfl) t d).mp hd
    rcases hsearch.cover t d hD with h1 | h1
    · exact hto h1
    · exact hempty rfl t h1
  | true =>
    obtain ⟨hto, d, hd, hdist⟩ := hinv.arrived rfl
    obtain ⟨p, hp, hsub, hnd, hback⟩ := hinv.state.paths t d hto hd
    have hloop := pathLoop_spec p t [t] g.nodeCount hback hnd hp.head?_eq hp.getLast?_eq
      (Nat.le_succ_of_le (length_le_nodeCount hnd fun x hx => hinv.state.nodes x (hsub x hx)))
    have hrev : ([t] ++ p.dropLast.reverse).reverse = p := by
      rw [List.reverse_append, List.reverse_reverse, List.reverse_singleton]
      exact List.dropLast_append_getLast? t hp.getLast?_eq
    refine ⟨RoutingResult.found p d, ?_, ?_, ?_⟩
    · rw [if_pos rfl, hloop, ok_bind, (tent_eq_some.mp hd).1, ok_bind]
      simp only [hrev]
      rfl
    · simp only [RoutingResult.found, true_iff]
      exact ⟨d, hp.walk⟩
    · intro _
      exact ⟨hdist, hp⟩

theorem route_spec (hw : g.WellFormed) (hnn : ∀ l ∈ g.dist, 0 ≤ l)
    (htotal : g.dist.sum < MAX_VALUE) (hr : Sized g r) {s t : Int} (hs : g.IsNode s) :
    ∃ result, route g r s t = .ok result ∧
      (result.routeFound = true ↔ ∃ L, Walk g.HasEdge s t L) ∧
      (result.routeFound = true → IsDist g.HasEdge s t result.overallDistance ∧
        IsPath g.HasEdge result.path s t result.overallDistance) :=
  route_of_room hw hnn (room_of_total hnn htotal s) hr hs

/-- Between any two nodes (the target may even be an id that no node has), and
whatever earlier calls left in the arrays, `route` returns: it reports a route
exactly when one exists, and then a shortest one together with its length. -/
theorem route_isShortest (g : Grid) (hw : g.WellFormed) (hnn : ∀ l ∈ g.dist, 0 ≤ l)
    (htotal : g.dist.sum < MAX_VALUE) (r : DijkstraRouter) (hr : Sized g r) (s t : Int)
    (hs : g.IsNode s) :
    ∃ result, route g r s t = .ok result ∧
      (result.routeFound = true ↔ ∃ L, Walk g.HasEdge s t L) ∧
      (result.routeFound = true →
        IsDist g.HasEdge s t result.getOverallDistance ∧
          IsPath g.HasEdge result.path s t result.getOverallDistance) := by
  obtain ⟨result, hrun, hfound, hroute⟩ := route_spec hw hnn htotal hr hs (t := t)
  refine ⟨result, hrun, hfound, fun h => ?_⟩
  rw [RoutingResult.getOverallDistance, h]
  exact hroute h

/-- Three nodes in a row; the first edge has the length 0. -/
def rowGrid : Grid where
  nodeCount := 3
  startNode := [0, 1, 1, 2]
  destNode := [1, 0, 2, 1]
  dist := [0, 0, 5, 5]
  offset := [0, 1, 3, 4]

theorem route_isShortest_rowGrid :
    (route rowGrid (new rowGrid) 0 2 = .ok (RoutingResult.found [0, 1, 2] 5)) ∧
    ∃ result, route rowGrid (new rowGrid) 0 2 = .ok result ∧
      (result.routeFound = true ↔ ∃ L, Walk rowGrid.HasEdge 0 2 L) ∧
      (result.routeFound = true →
        IsDist rowGrid.HasEdge 0 2 result.getOverallDistance ∧
          IsPath rowGrid.HasEdge result.path 0 2 result.getOverallDistance) :=
  ⟨by decide +kernel,
    route_isShortest rowGrid
      ⟨by decide, by decide, by decide, by decide, by unfold Grid.IsNode; decide,
        by unfold Grid.IsNode; decide⟩
      (by decide) (by decide) (new rowGrid) (sized_new rowGrid) 0 2
      (by unfold Grid.IsNode; decide)⟩

end DijkstraRouter

end SeaRouter
