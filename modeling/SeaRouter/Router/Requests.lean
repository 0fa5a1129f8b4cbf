import SeaRouter.Lib.Thread
import SeaRouter.Router.KeptFields

/-!
# Requests in atomic steps

The two routers as threads on a router that they share with other requests.  A reset,
an iteration of a loop of the search, and the extraction of the path are atomic
steps.  A request that runs alone is `route`: `run_route`.
-/

namespace SeaRouter

open Java

/-! ## The Dijkstra router -/

namespace DijkstraRouter

namespace Request

/-- `route(startNodeIdx, destNodeIdx)`: the reset and the start node, each iteration of the
search, and the path.  The local variable of the loop is `routeFound`. -/
def route (fuel : Nat) (g : Grid) (startNodeIdx destNodeIdx : Int) :
    Thread DijkstraRouter RoutingResult := do
  Thread.lift fun r => do return ((), ← start r startNodeIdx)
  let routeFound ← Thread.loop (fun routeFound r => !r.vertexHeap.isEmpty && !routeFound)
    (fun routeFound r => do
      let (r, routeFound) ← searchStep g destNodeIdx (r, routeFound)
      return (routeFound, r)) fuel false
  Thread.read fun r => extract fuel startNodeIdx destNodeIdx (r, routeFound)

variable {g : Grid}

theorem run_route (fuel : Nat) (s t : Int) (r : DijkstraRouter) :
    (route fuel g s t).run r = (do
      let state ← search fuel g r s t
      let result ← extract fuel s t state
      return (result, state.1)) := by
  have hloop : ∀ state : DijkstraRouter × Bool,
      whileLoop (fun x : Bool × DijkstraRouter => return !x.2.vertexHeap.isEmpty && !x.1)
        (fun x => do
          let (r, routeFound) ← searchStep g t (x.2, x.1)
          return (routeFound, r)) fuel (Prod.swap state) =
        (whileLoop searchGuard (searchStep g t) fuel state).map Prod.swap := by
    apply Thread.whileLoop_map Prod.swap
    · intro state
      rfl
    · intro state
      simp only [Prod.swap]
      cases searchStep g t (state.1, state.2) <;> rfl
  unfold route search
  simp only [Thread.run_bind, Thread.run_lift, Thread.run_loop, Thread.run_read, bind_assoc,
    pure_eq_ok, ok_bind]
  congr 1
  funext r₁
  have h := hloop (r₁, false)
  rw [Prod.swap_prod_mk] at h
  simp only [pure_eq_ok] at h
  rw [h]
  cases whileLoop searchGuard (searchStep g t) fuel (r₁, false) <;> rfl

/-- A request that is not interrupted is `route`. -/
theorem run_route_nodeCount (s t : Int) (r : DijkstraRouter) :
    ((route g.nodeCount g s t).run r).map Prod.fst = DijkstraRouter.route g r s t := by
  rw [run_route, route_eq]
  cases search g.nodeCount g r s t with
  | error e => rfl
  | ok state =>
    simp only [ok_bind]
    cases extract g.nodeCount s t state <;> rfl

theorem keeps_route (fuel : Nat) (s t : Int) : (route fuel g s t).Keeps (Sized g) := by
  apply Thread.keeps_bind
  · apply Thread.keeps_lift
    intro r _ r' hr hrun
    simp only [bind_eq_ok, pure_eq_ok, Except.ok.injEq, Prod.mk.injEq] at hrun
    obtain ⟨r₁, hstart, _, rfl⟩ := hrun
    exact sized_start hr hstart
  · intro _
    apply Thread.keeps_bind
    · apply Thread.keeps_loop
      intro routeFound r routeFound' r' hr hrun
      simp only [bind_eq_ok, pure_eq_ok, Except.ok.injEq, Prod.mk.injEq] at hrun
      obtain ⟨state, hstep, _, rfl⟩ := hrun
      exact @sized_searchStep _ _ (r, routeFound) _ hr hstep
    · intro routeFound
      exact Thread.keeps_read _

/-- The result does not depend on what an earlier request left. -/
theorem run_route_eq_new {r : DijkstraRouter} (hr : Sized g r) (fuel : Nat) (s t : Int) :
    (route fuel g s t).run r = (route fuel g s t).run (new g) := by
  rw [run_route, run_route, hr.search_eq]

end Request

end DijkstraRouter

/-! ## The hub label router -/

namespace HubLRouter

/-- The temporary labels of a side. -/
def sideLabels (isLeftNode : Bool) (r : HubLRouter) : TempLabels :=
  if isLeftNode then r.left else r.right

def withLabels (isLeftNode : Bool) (r : HubLRouter) (t : TempLabels) : HubLRouter :=
  if isLeftNode then { r with left := t } else { r with right := t }

/-- The data structures of the router as the search of a side uses them. -/
def searchOf (isLeftNode : Bool) (r : HubLRouter) (maxNumOfLabels : Int) : Search where
  heap := r.heap
  labelHeap := r.labelHeap
  labels := sideLabels isLeftNode r
  maxNumOfLabels := maxNumOfLabels

def withSearch (isLeftNode : Bool) (r : HubLRouter) (s : Search) : HubLRouter :=
  withLabels isLeftNode { r with heap := s.heap, labelHeap := s.labelHeap } s.labels

@[simp]
theorem searchOf_withSearch (isLeftNode : Bool) (r : HubLRouter) (s : Search) :
    searchOf isLeftNode (withSearch isLeftNode r s) s.maxNumOfLabels = s := by
  cases isLeftNode <;> rfl

@[simp]
theorem withSearch_withSearch (isLeftNode : Bool) (r : HubLRouter) (s s' : Search) :
    withSearch isLeftNode (withSearch isLeftNode r s) s' = withSearch isLeftNode r s' := by
  cases isLeftNode <;> rfl

@[simp]
theorem withSearch_heap (isLeftNode : Bool) (r : HubLRouter) (s : Search) :
    (withSearch isLeftNode r s).heap = s.heap := by
  cases isLeftNode <;> rfl

@[simp]
theorem withSearch_labelHeap (isLeftNode : Bool) (r : HubLRouter) (s : Search) :
    (withSearch isLeftNode r s).labelHeap = s.labelHeap := by
  cases isLeftNode <;> rfl

variable {H : HubLEdges} {N : HubLNodes}

theorem Sane.searchOf {r : HubLRouter} (h : Sane r) (isLeftNode : Bool) (m : Int) :
    (searchOf isLeftNode r m).Intact := by
  refine ⟨h.heap, h.labelHeap, ?_⟩
  cases isLeftNode with
  | true => exact TempLabels.intact_iff.mpr h.left
  | false => exact TempLabels.intact_iff.mpr h.right

theorem Sane.withSearch {r : HubLRouter} (h : Sane r) (isLeftNode : Bool) {s : Search}
    (hs : s.Intact) : Sane (withSearch isLeftNode r s) := by
  have hlabels := TempLabels.intact_iff.mp hs.labels
  cases isLeftNode with
  | true => exact { h with heap := hs.heap, labelHeap := hs.labelHeap, left := hlabels }
  | false => exact { h with heap := hs.heap, labelHeap := hs.labelHeap, right := hlabels }

namespace Request

/-- A loop of `calcTempLabels`, with the local variable `maxNumOfLabels`. -/
def searchLoop (isLeftNode : Bool) (guard : HubLRouter → Bool) (body : Search → Run Search) :
    Nat → Int → Thread HubLRouter Int :=
  Thread.loop (fun _ r => guard r) fun maxNumOfLabels r => do
    let s ← body (searchOf isLeftNode r maxNumOfLabels)
    return (s.maxNumOfLabels, withSearch isLeftNode r s)

/-- `calcTempLabels(nodeId, isLeftNode)`. -/
def calcTempLabels (fuel : Nat) (H : HubLEdges) (N : HubLNodes) (isLeftNode : Bool) (nodeId : Int) :
    Thread HubLRouter Unit := do
  Thread.lift fun r => do
    let labels ← (sideLabels isLeftNode r).insertTail nodeId 0 (-1) (-1)
    let heap ← r.heap.reset.add nodeId 0
    return ((), withSearch isLeftNode r
      { heap, labelHeap := r.labelHeap.reset, labels, maxNumOfLabels := 0 })
  let maxNumOfLabels ← searchLoop isLeftNode (fun r => !r.heap.isEmpty) (expandNode H N) fuel 0
  Thread.lift fun r => do
    return ((), withLabels isLeftNode r ((sideLabels isLeftNode r).makeSpace maxNumOfLabels))
  let _ ← searchLoop isLeftNode (fun r => !r.labelHeap.isEmpty) (expandLabels N) fuel maxNumOfLabels
  return ()

/-- The loop for the best common label. -/
def mergeLoop (A B : HubLRouter → Side) (startA endA startB endB : Int) :
    Thread HubLRouter Selection := do
  let m ← Thread.read fun r => do
    let nodeA ← (A r).node startA
    let nodeB ← (B r).node startB
    return { currOffsetA := startA, currOffsetB := startB, nodeA, nodeB
             best := { highestLvlNode := -1, currDistance := MAX_VALUE, idxA := -1, idxB := -1 } }
  let m ← Thread.loop
    (fun (m : Merging) _ => decide (m.currOffsetA < endA) && decide (m.currOffsetB < endB))
    (fun m r => do return (← mergeStep (A r) (B r) m, r))
    ((endA - startA).toNat + (endB - startB).toNat) m
  return m.best

/-- The dummy behind the labels of a side. -/
def insertDummy (isLeftNode : Bool) : Thread HubLRouter Unit :=
  Thread.lift fun r => do
    let label ← (sideLabels isLeftNode r).label.insertTail MAX_VALUE
    return ((), withLabels isLeftNode r { sideLabels isLeftNode r with label := label })

def select2Lbl (N : HubLNodes) (startId destId : Int) : Thread HubLRouter Selection := do
  let currOffsetA ← Thread.read fun _ => N.getLabelOffset startId
  let currOffsetB ← Thread.read fun _ => N.getLabelOffset destId
  let endOffsetA ← Thread.read fun _ => N.getLabelOffset (startId + 1)
  let endOffsetB ← Thread.read fun _ => N.getLabelOffset (destId + 1)
  if currOffsetA = endOffsetA ∨ currOffsetB = endOffsetB then return noSelection
  else
    mergeLoop (fun _ => storedSide N) (fun _ => storedSide N) currOffsetA endOffsetA currOffsetB
      endOffsetB

/-- `routeLeftLbl` and `routeRightLbl` up to the selection: `isLeftNode` says which side
has no labels. -/
def select1Lbl (fuel : Nat) (H : HubLEdges) (N : HubLNodes) (isLeftNode : Bool)
    (labelledId nodeId : Int) : Thread HubLRouter Selection := do
  calcTempLabels fuel H N isLeftNode nodeId
  let idx ← Thread.read fun _ => N.getLabelOffset labelledId
  let maxIdx ← Thread.read fun _ => N.getLabelOffset (labelledId + 1)
  let size ← Thread.read fun r => return (sideLabels isLeftNode r).label.size
  if idx = maxIdx ∨ size = 0 then return noSelection
  else
    insertDummy isLeftNode
    mergeLoop (fun _ => storedSide N) (fun r => tempSide (sideLabels isLeftNode r)) idx maxIdx 0 size

def select0Lbl (fuel : Nat) (H : HubLEdges) (N : HubLNodes) (startId destId : Int) :
    Thread HubLRouter Selection := do
  calcTempLabels fuel H N true startId
  calcTempLabels fuel H N false destId
  let leftSize ← Thread.read fun r => return r.left.label.size
  let rightSize ← Thread.read fun r => return r.right.label.size
  if leftSize = 0 ∨ rightSize = 0 then return noSelection
  else
    insertDummy true
    insertDummy false
    mergeLoop (fun r => tempSide r.left) (fun r => tempSide r.right) 0 leftSize 0 rightSize

def select (fuel : Nat) (H : HubLEdges) (N : HubLNodes) (startNodeIdx destNodeIdx : Int) :
    Thread HubLRouter Selection := do
  Thread.lift fun r => return ((), reset r)
  let startHasLabels ← Thread.read fun _ => N.nodeHasLabels startNodeIdx
  let destHasLabels ← Thread.read fun _ => N.nodeHasLabels destNodeIdx
  if startHasLabels && destHasLabels then select2Lbl N startNodeIdx destNodeIdx
  else if !startHasLabels && !destHasLabels then select0Lbl fuel H N startNodeIdx destNodeIdx
  else if startHasLabels then select1Lbl fuel H N false startNodeIdx destNodeIdx
  else select1Lbl fuel H N true destNodeIdx startNodeIdx

/-- `route(startNodeId, destNodeId)`. -/
def route (fuel : Nat) (H : HubLEdges) (N : HubLNodes) (startNodeId destNodeId : Int) :
    Thread HubLRouter RoutingResult := do
  let best ← select fuel H N startNodeId destNodeId
  if best.highestLvlNode = -1 then return RoutingResult.notFound
  else Thread.lift fun r => extract fuel H N r startNodeId destNodeId best

/-! ### A request alone -/

theorem run_searchLoop (isLeftNode : Bool) (guard : HubLRouter → Bool) (c : Search → Bool)
    (body : Search → Run Search) (r : HubLRouter)
    (hguard : ∀ s, guard (withSearch isLeftNode r s) = c s) (fuel : Nat) (s : Search) :
    (searchLoop isLeftNode guard body fuel s.maxNumOfLabels).run (withSearch isLeftNode r s) =
      (whileLoop (fun s => return c s) body fuel s).map
        fun s => (s.maxNumOfLabels, withSearch isLeftNode r s) := by
  unfold searchLoop
  rw [Thread.run_loop]
  apply Thread.whileLoop_map (fun s => (s.maxNumOfLabels, withSearch isLeftNode r s))
  · intro s
    rw [hguard]
  · intro s
    simp only [searchOf_withSearch, withSearch_withSearch]
    cases body s <;> rfl

theorem run_calcTempLabels (fuel : Nat) (isLeftNode : Bool) (x : Int) (r : HubLRouter) :
    (calcTempLabels fuel H N isLeftNode x).run r = (do
      let (heap, labelHeap, labels) ←
        HubLRouter.calcTempLabels fuel H N r.heap r.labelHeap (sideLabels isLeftNode r) x
      return ((), withLabels isLeftNode { r with heap := heap, labelHeap := labelHeap } labels)) := by
  have hexpand := run_searchLoop isLeftNode (fun r => !r.heap.isEmpty) (fun s => !s.heap.isEmpty)
    (expandNode H N) r
    (fun s => congrArg (fun h : DistanceHeap => !h.isEmpty) (withSearch_heap isLeftNode r s)) fuel
  have hfold := run_searchLoop isLeftNode (fun r => !r.labelHeap.isEmpty)
    (fun s => !s.labelHeap.isEmpty) (expandLabels N) r
    (fun s => congrArg (fun h : DistanceHeap => !h.isEmpty) (withSearch_labelHeap isLeftNode r s)) fuel
  unfold calcTempLabels HubLRouter.calcTempLabels
  simp only [Thread.run_bind, Thread.run_lift, Thread.run_pure, bind_assoc, pure_eq_ok, ok_bind]
    at hexpand hfold ⊢
  congr 1
  funext labels
  congr 1
  funext heap
  have h := hexpand { heap, labelHeap := r.labelHeap.reset, labels, maxNumOfLabels := 0 }
  simp only at h
  rw [h]
  cases whileLoop (fun s : Search => Except.ok !s.heap.isEmpty) (expandNode H N) fuel
      { heap, labelHeap := r.labelHeap.reset, labels, maxNumOfLabels := 0 } with
  | error e => rfl
  | ok s =>
    have hspace : withLabels isLeftNode (withSearch isLeftNode r s)
        ((sideLabels isLeftNode (withSearch isLeftNode r s)).makeSpace s.maxNumOfLabels) =
        withSearch isLeftNode r { s with labels := s.labels.makeSpace s.maxNumOfLabels } := by
      cases isLeftNode <;> rfl
    have h := hfold { s with labels := s.labels.makeSpace s.maxNumOfLabels }
    simp only [Except.map, ok_bind] at h ⊢
    rw [hspace, h]
    cases whileLoop (fun s : Search => Except.ok !s.labelHeap.isEmpty) (expandLabels N) fuel
        { s with labels := s.labels.makeSpace s.maxNumOfLabels } <;> rfl

theorem run_mergeLoop (A B : HubLRouter → Side) (startA endA startB endB : Int) (r : HubLRouter) :
    (mergeLoop A B startA endA startB endB).run r =
      (HubLRouter.mergeLoop (A r) (B r) startA endA startB endB).map fun best => (best, r) := by
  have hloop := Thread.whileLoop_map (fun m : Merging => (m, r))
    (b := fun x : Merging × HubLRouter => do return (← mergeStep (A x.2) (B x.2) x.1, x.2))
    (g := mergeStep (A r) (B r))
    (c := fun x => return decide (x.1.currOffsetA < endA) && decide (x.1.currOffsetB < endB))
    (fun _ => rfl) (fun m => by cases mergeStep (A r) (B r) m <;> rfl)
    ((endA - startA).toNat + (endB - startB).toNat)
  unfold mergeLoop HubLRouter.mergeLoop
  simp only [Thread.run_bind, Thread.run_read, Thread.run_pure, Thread.run_loop, bind_assoc,
    pure_eq_ok, ok_bind] at hloop ⊢
  cases (A r).node startA with
  | error e => rfl
  | ok nodeA =>
    cases (B r).node startB with
    | error e => rfl
    | ok nodeB =>
      simp only [ok_bind, hloop]
      cases whileLoop _ (mergeStep (A r) (B r)) _ _ <;> rfl

theorem run_select2Lbl (s t : Int) (r : HubLRouter) :
    (select2Lbl N s t).run r = HubLRouter.select2Lbl N r s t := by
  unfold select2Lbl HubLRouter.select2Lbl
  simp only [Thread.run_bind, Thread.run_read, bind_assoc, ok_bind]
  congr 1
  funext a
  congr 1
  funext b
  congr 1
  funext a'
  congr 1
  funext b'
  split_ifs
  · rfl
  · rw [run_mergeLoop]
    cases HubLRouter.mergeLoop (storedSide N) (storedSide N) a a' b b' <;> rfl

theorem run_select1Lbl_left (fuel : Nat) (s t : Int) (r : HubLRouter) :
    (select1Lbl fuel H N false s t).run r = selectLeftLbl fuel H N r s t := by
  unfold select1Lbl selectLeftLbl insertDummy
  simp only [Thread.run_bind, Thread.run_read, run_calcTempLabels, bind_assoc, pure_eq_ok, ok_bind]
  congr 1
  funext a
  congr 1
  funext first
  congr 1
  funext last
  simp only [sideLabels, withLabels, Bool.false_eq_true, if_false]
  split_ifs
  · rfl
  · simp only [Thread.run_bind, Thread.run_lift, bind_assoc, ok_bind, run_mergeLoop]
    rfl

theorem run_select1Lbl_right (fuel : Nat) (s t : Int) (r : HubLRouter) :
    (select1Lbl fuel H N true t s).run r = selectRightLbl fuel H N r s t := by
  unfold select1Lbl selectRightLbl insertDummy
  simp only [Thread.run_bind, Thread.run_read, run_calcTempLabels, bind_assoc, pure_eq_ok, ok_bind]
  congr 1
  funext a
  congr 1
  funext first
  congr 1
  funext last
  simp only [sideLabels, withLabels, if_true]
  split_ifs
  · rfl
  · simp only [Thread.run_bind, Thread.run_lift, bind_assoc, ok_bind, run_mergeLoop]
    rfl

theorem run_select0Lbl (fuel : Nat) (s t : Int) (r : HubLRouter) :
    (select0Lbl fuel H N s t).run r = HubLRouter.select0Lbl fuel H N r s t := by
  unfold select0Lbl HubLRouter.select0Lbl insertDummy
  simp only [Thread.run_bind, Thread.run_read, run_calcTempLabels, bind_assoc, pure_eq_ok, ok_bind]
  congr 1
  funext a
  congr 1
  funext b
  simp only [withLabels, Bool.false_eq_true, if_true, if_false]
  split_ifs
  · rfl
  · simp only [Thread.run_bind, Thread.run_lift, bind_assoc, ok_bind, run_mergeLoop, sideLabels,
      Bool.false_eq_true, if_true, if_false]
    rfl

theorem run_select (fuel : Nat) (s t : Int) (r : HubLRouter) :
    (select fuel H N s t).run r = HubLRouter.select fuel H N r s t := by
  unfold select HubLRouter.select
  simp only [Thread.run_bind, Thread.run_lift, Thread.run_read, bind_assoc, pure_eq_ok, ok_bind]
  congr 1
  funext a
  congr 1
  funext b
  split_ifs
  · exact run_select2Lbl s t _
  · exact run_select0Lbl fuel s t _
  · exact run_select1Lbl_left fuel s t _
  · exact run_select1Lbl_right fuel s t _

/-- A request that is not interrupted is `route`. -/
theorem run_route (fuel : Nat) (s t : Int) (r : HubLRouter) :
    (route fuel H N s t).run r = HubLRouter.route fuel H N r s t := by
  unfold route
  rw [route_eq, Thread.run_bind, run_select]
  congr 1
  funext a
  obtain ⟨best, r₁⟩ := a
  simp only
  split_ifs
  · rfl
  · exact Thread.run_lift _ _

/-! ### What a request keeps -/

theorem keeps_searchLoop (isLeftNode : Bool) (guard : HubLRouter → Bool)
    {body : Search → Run Search} (hbody : ∀ s : Search, s.Intact → Ensures Search.Intact (body s))
    (fuel : Nat) (m : Int) : (searchLoop isLeftNode guard body fuel m).Keeps Sane := by
  apply Thread.keeps_loop
  intro m r m' r' hr hrun
  simp only [bind_eq_ok, pure_eq_ok, Except.ok.injEq, Prod.mk.injEq] at hrun
  obtain ⟨s, hs, _, rfl⟩ := hrun
  exact hr.withSearch isLeftNode ((hbody _ (hr.searchOf isLeftNode m)).result s hs)

theorem keeps_withLabels (isLeftNode : Bool) {r : HubLRouter} (hr : Sane r) {t : TempLabels}
    (ht : t.Intact) : Sane (withLabels isLeftNode r t) := by
  have hlabels := TempLabels.intact_iff.mp ht
  cases isLeftNode with
  | true => exact { hr with left := hlabels }
  | false => exact { hr with right := hlabels }

theorem keeps_calcTempLabels (fuel : Nat) (isLeftNode : Bool) (x : Int) :
    (calcTempLabels fuel H N isLeftNode x).Keeps Sane := by
  apply Thread.keeps_bind
  · apply Thread.keeps_lift
    intro r _ r' hr hrun
    simp only [bind_eq_ok, pure_eq_ok, Except.ok.injEq, Prod.mk.injEq] at hrun
    obtain ⟨labels, hlabels, heap, hheap, _, rfl⟩ := hrun
    apply hr.withSearch isLeftNode
    exact ⟨(DistanceHeap.ensures_add hr.heap.reset_stores.equal x 0).result heap hheap,
      hr.labelHeap.reset_stores.equal,
      (TempLabels.ensures_insertTail (hr.searchOf isLeftNode 0).labels x 0 (-1) (-1)).result labels
        hlabels⟩
  · intro _
    apply Thread.keeps_bind
    · exact keeps_searchLoop isLeftNode _ (fun s hs => ensures_expandNode hs) fuel 0
    · intro m
      apply Thread.keeps_bind
      · apply Thread.keeps_lift
        intro r _ r' hr hrun
        simp only [pure_eq_ok, Except.ok.injEq, Prod.mk.injEq] at hrun
        obtain ⟨_, rfl⟩ := hrun
        exact keeps_withLabels isLeftNode hr
          (TempLabels.makeSpace_intact (hr.searchOf isLeftNode 0).labels m)
      · intro _
        apply Thread.keeps_bind
        · exact keeps_searchLoop isLeftNode _ (fun s hs => ensures_expandLabels hs) fuel m
        · intro _
          exact trivial

theorem keeps_mergeLoop (A B : HubLRouter → Side) (startA endA startB endB : Int) :
    (mergeLoop A B startA endA startB endB).Keeps Sane := by
  apply Thread.keeps_bind
  · exact Thread.keeps_read _
  · intro m
    apply Thread.keeps_bind
    · apply Thread.keeps_loop
      intro m r m' r' hr hrun
      simp only [bind_eq_ok, pure_eq_ok, Except.ok.injEq, Prod.mk.injEq] at hrun
      obtain ⟨_, _, _, rfl⟩ := hrun
      exact hr
    · intro m
      exact trivial

theorem keeps_insertDummy (isLeftNode : Bool) : (insertDummy isLeftNode).Keeps Sane := by
  apply Thread.keeps_lift
  intro r _ r' hr hrun
  simp only [bind_eq_ok, pure_eq_ok, Except.ok.injEq, Prod.mk.injEq] at hrun
  obtain ⟨label, hlabel, _, rfl⟩ := hrun
  have ht := (hr.searchOf isLeftNode 0).labels
  exact keeps_withLabels isLeftNode hr
    { ht with label := (OrderedIntSet.ensures_insertTail ht.label MAX_VALUE).result label hlabel }

theorem keeps_select2Lbl (s t : Int) : (select2Lbl N s t).Keeps Sane := by
  apply Thread.keeps_bind (Thread.keeps_read _)
  intro a
  apply Thread.keeps_bind (Thread.keeps_read _)
  intro b
  apply Thread.keeps_bind (Thread.keeps_read _)
  intro a'
  apply Thread.keeps_bind (Thread.keeps_read _)
  intro b'
  split_ifs
  · exact trivial
  · exact keeps_mergeLoop _ _ _ _ _ _

theorem keeps_select1Lbl (fuel : Nat) (isLeftNode : Bool) (u x : Int) :
    (select1Lbl fuel H N isLeftNode u x).Keeps Sane := by
  apply Thread.keeps_bind (keeps_calcTempLabels fuel isLeftNode x)
  intro _
  apply Thread.keeps_bind (Thread.keeps_read _)
  intro idx
  apply Thread.keeps_bind (Thread.keeps_read _)
  intro maxIdx
  apply Thread.keeps_bind (Thread.keeps_read _)
  intro size
  split_ifs
  · exact trivial
  · apply Thread.keeps_bind (keeps_insertDummy isLeftNode)
    intro _
    exact keeps_mergeLoop _ _ _ _ _ _

theorem keeps_select0Lbl (fuel : Nat) (s t : Int) : (select0Lbl fuel H N s t).Keeps Sane := by
  apply Thread.keeps_bind (keeps_calcTempLabels fuel true s)
  intro _
  apply Thread.keeps_bind (keeps_calcTempLabels fuel false t)
  intro _
  apply Thread.keeps_bind (Thread.keeps_read _)
  intro leftSize
  apply Thread.keeps_bind (Thread.keeps_read _)
  intro rightSize
  split_ifs
  · exact trivial
  · apply Thread.keeps_bind (keeps_insertDummy true)
    intro _
    apply Thread.keeps_bind (keeps_insertDummy false)
    intro _
    exact keeps_mergeLoop _ _ _ _ _ _

theorem keeps_select (fuel : Nat) (s t : Int) : (select fuel H N s t).Keeps Sane := by
  apply Thread.keeps_bind
  · apply Thread.keeps_lift
    intro r _ r' hr hrun
    rw [pure_eq_ok, Except.ok.injEq, Prod.mk.injEq] at hrun
    exact hrun.2 ▸ hr.reset
  · intro _
    apply Thread.keeps_bind (Thread.keeps_read _)
    intro startHasLabels
    apply Thread.keeps_bind (Thread.keeps_read _)
    intro destHasLabels
    split_ifs
    · exact keeps_select2Lbl s t
    · exact keeps_select0Lbl fuel s t
    · exact keeps_select1Lbl fuel false s t
    · exact keeps_select1Lbl fuel true t s

/-- Each step of a request leaves a router on which the next `reset` works. -/
theorem keeps_route (fuel : Nat) (s t : Int) : (route fuel H N s t).Keeps Sane := by
  apply Thread.keeps_bind (keeps_select fuel s t)
  intro best
  split_ifs
  · exact trivial
  · apply Thread.keeps_lift
    intro r _ r' hr hrun
    exact (ensures_extract hr fuel s t best).result _ hrun

/-- The result does not depend on what other requests left. -/
theorem run_route_eq_new (hd : NodeIds H N) {r : HubLRouter} (hr : Sane r) (fuel : Nat) (s t : Int) :
    ((route fuel H N s t).run r).map Prod.fst =
      ((route fuel H N s t).run HubLRouter.new).map Prod.fst := by
  rw [run_route, run_route]
  apply (route_agree hd fuel hr sane_new s t).map_eq
  intro a b hab
  cases hab with
  | mk _ _ => rfl

end Request

end HubLRouter

end SeaRouter
