import SeaRouter.HubLabelData.HubLNodes
import SeaRouter.Router.RoutingResult
import SeaRouter.Utils.DistanceHeap
import SeaRouter.Utils.IntStack

/-!
# `router/HubLRouter.java`

The router keeps its data structures between the requests; `reset` and
`calcTempLabels` prepare them for the next one.

The four ways to route (`route2Lbl`, `routeLeftLbl`, `routeRightLbl` and
`route0Lbl`) find the best common label by one loop, which is `mergeLoop` here:
they differ only in where the nodes and distances of the two sides are read
from.  The same holds for the two sides in `calculateRoute` and for the part of
the path between a side and the hub.

The loops whose end depends on the data have a `fuel`; the other ones are bounded
by the number of elements that they pass.
-/

namespace SeaRouter

open Java

/-- The temporary labels of one side: `labelLeft`, `distLeft`, `edgeLeft` and
`addInfoLeft`, or the four fields of the right side. -/
structure TempLabels where
  label : OrderedIntSet
  dist : OrderedIntSet
  edge : OrderedIntSet
  addInfo : OrderedIntSet
deriving DecidableEq, Repr

/-- The fields of `HubLRouter`. -/
structure HubLRouter where
  resultNodes : IntStack
  edgesRight : IntStack
  edgesLeft : IntStack
  edgeCalcStack : IntStack
  heap : DistanceHeap
  labelHeap : DistanceHeap
  left : TempLabels
  right : TempLabels
deriving DecidableEq, Repr

namespace TempLabels

def new : TempLabels where
  label := OrderedIntSet.new true 1000 1000
  dist := OrderedIntSet.new false 1000 1000
  edge := OrderedIntSet.new false 1000 1000
  addInfo := OrderedIntSet.new false 1000 1000

def clear (t : TempLabels) : TempLabels where
  label := t.label.clear
  dist := t.dist.clear
  edge := t.edge.clear
  addInfo := t.addInfo.clear

def insertTail (t : TempLabels) (label dist edge addInfo : Int) : Run TempLabels := do
  return {
    label := ← t.label.insertTail label
    dist := ← t.dist.insertTail dist
    edge := ← t.edge.insertTail edge
    addInfo := ← t.addInfo.insertTail addInfo }

def insertAtIdx (t : TempLabels) (label dist edge addInfo idx : Int) : Run TempLabels := do
  return {
    label := ← t.label.insertAtIdx label idx
    dist := ← t.dist.insertAtIdx dist idx
    edge := ← t.edge.insertAtIdx edge idx
    addInfo := ← t.addInfo.insertAtIdx addInfo idx }

def updateValue (t : TempLabels) (dist edge addInfo idx : Int) : Run TempLabels := do
  return { t with
    dist := ← t.dist.updateValue dist idx
    edge := ← t.edge.updateValue edge idx
    addInfo := ← t.addInfo.updateValue addInfo idx }

def makeSpace (t : TempLabels) (numOfElements : Int) : TempLabels where
  label := t.label.makeSpace numOfElements
  dist := t.dist.makeSpace numOfElements
  edge := t.edge.makeSpace numOfElements
  addInfo := t.addInfo.makeSpace numOfElements

end TempLabels

namespace HubLRouter

/-- `HubLRouter()`. -/
def new : HubLRouter where
  resultNodes := IntStack.new 5000
  edgesRight := IntStack.new 500
  edgesLeft := IntStack.new 500
  edgeCalcStack := IntStack.new 10
  heap := DistanceHeap.new 1000 1000
  labelHeap := DistanceHeap.new 1000 1000
  left := TempLabels.new
  right := TempLabels.new

/-- `reset()`, which leaves `labelHeap` as it is. -/
def reset (r : HubLRouter) : HubLRouter :=
  { r with
    heap := r.heap.reset
    resultNodes := r.resultNodes.clear
    edgesRight := r.edgesRight.clear
    edgesLeft := r.edgesLeft.clear
    edgeCalcStack := r.edgeCalcStack.clear
    left := r.left.clear
    right := r.right.clear }

/-! ## Temporary labels -/

/-- The variables of the two loops of `calcTempLabels`. -/
structure Search where
  heap : DistanceHeap
  labelHeap : DistanceHeap
  labels : TempLabels
  maxNumOfLabels : Int

/-- The edge at index `i` of the node `currNode`. -/
def relaxEdge (H : HubLEdges) (N : HubLNodes) (currNode currNodeDist : Int) (s : Search) (i : Int) :
    Run Search := do
  let edgeId ← N.getEdge i
  let destNode ← H.getDest edgeId
  let edgeDist ← H.getDist edgeId
  let insertIdx ← s.labels.label.getIdx destNode
  let newDist := currNodeDist + edgeDist
  if insertIdx < 0 then
    -- new node found
    let s ← if ← N.nodeHasLabels destNode then
        let labelHeap ← s.labelHeap.add destNode newDist
        let stop ← N.getLabelOffset (destNode + 1)
        let start ← N.getLabelOffset destNode
        pure { s with
          labelHeap := labelHeap, maxNumOfLabels := s.maxNumOfLabels + (stop - start) }
      else
        let heap ← s.heap.add destNode newDist
        pure { s with heap := heap }
    let labels ← s.labels.insertAtIdx destNode newDist edgeId currNode ((insertIdx + 1) * (-1))
    return { s with labels := labels }
  else
    let prevDist ← s.labels.dist.get insertIdx
    if newDist < prevDist then
      let s ← if ← N.nodeHasLabels destNode then
          let labelHeap ← s.labelHeap.add destNode newDist
          pure { s with labelHeap := labelHeap }
        else
          let heap ← s.heap.add destNode newDist
          pure { s with heap := heap }
      let labels ← s.labels.updateValue newDist edgeId currNode insertIdx
      return { s with labels := labels }
    else return s

/-- One iteration of the loop over the nodes without labels. -/
def expandNode (H : HubLEdges) (N : HubLNodes) (s : Search) : Run Search := do
  let (currNode, heap) ← s.heap.getNext
  let currNodeIdx ← s.labels.label.getIdx currNode
  let currNodeDist ← s.labels.dist.get currNodeIdx
  let edgesStart ← N.getEdgeOffset currNode
  let edgesStop ← N.getEdgeOffset (currNode + 1)
  -- look at all edges as only the ones to higher lvl nodes are stored
  (indices edgesStart edgesStop).foldlM (relaxEdge H N currNode currNodeDist)
    { s with heap := heap }

/-- The label at index `currIdx`, one of those of `labelNode`. -/
def foldLabel (N : HubLNodes) (labelNode nodeDist : Int) (labels : TempLabels) (currIdx : Int) :
    Run TempLabels := do
  let currLabelNode ← N.getLabelNode currIdx
  let currLabelIdx ← labels.label.getIdx currLabelNode
  let distance := nodeDist + (← N.getLabelDist currIdx)
  -- make info negative to show this is a node
  let info := labelNode * (-1) - 2
  if currLabelIdx < 0 then
    labels.insertAtIdx currLabelNode distance (← N.getLabelEdge currIdx) info
      ((currLabelIdx + 1) * (-1))
  else if distance < (← labels.dist.get currLabelIdx) then
    labels.updateValue distance (← N.getLabelEdge currIdx) info currLabelIdx
  else return labels

/-- One iteration of the loop over the nodes with labels. -/
def expandLabels (N : HubLNodes) (s : Search) : Run Search := do
  let (labelNode, labelHeap) ← s.labelHeap.getNext
  let nodeDist ← s.labels.dist.get (← s.labels.label.getIdx labelNode)
  let endIdx ← N.getLabelOffset (labelNode + 1)
  let startIdx ← N.getLabelOffset labelNode
  let labels ← (indices startIdx endIdx).foldlM (foldLabel N labelNode nodeDist) s.labels
  return { s with labelHeap := labelHeap, labels := labels }

/-- `calcTempLabels(nodeId, ..)` for the side whose labels are given; it returns
the two heaps with the labels. -/
def calcTempLabels (fuel : Nat) (H : HubLEdges) (N : HubLNodes) (heap labelHeap : DistanceHeap)
    (labels : TempLabels) (nodeId : Int) : Run (DistanceHeap × DistanceHeap × TempLabels) := do
  let labelHeap := labelHeap.reset
  let heap := heap.reset
  -- add initial node with a distance of 0 and no edges which lead to it
  let labels ← labels.insertTail nodeId 0 (-1) (-1)
  let heap ← heap.add nodeId 0
  let s ← whileLoop (fun s => return !s.heap.isEmpty) (expandNode H N) fuel
    { heap, labelHeap, labels, maxNumOfLabels := 0 }
  -- insert all labels
  let s := { s with labels := s.labels.makeSpace s.maxNumOfLabels }
  let s ← whileLoop (fun s => return !s.labelHeap.isEmpty) (expandLabels N) fuel s
  return (s.heap, s.labelHeap, s.labels)

/-! ## The best common label -/

/-- What the loop over the labels of both sides has found. -/
structure Selection where
  highestLvlNode : Int
  currDistance : Int
  idxA : Int
  idxB : Int
deriving DecidableEq, Repr

/-- The variables of that loop. -/
structure Merging where
  currOffsetA : Int
  currOffsetB : Int
  nodeA : Int
  nodeB : Int
  best : Selection
deriving DecidableEq, Repr

/-- Where the labels of a side are read from. -/
structure Side where
  node : Int → Run Int
  dist : Int → Run Int

/-- The labels that are stored for a node. -/
def storedSide (N : HubLNodes) : Side := { node := N.getLabelNode, dist := N.getLabelDist }

/-- The temporary labels. -/
def tempSide (t : TempLabels) : Side := { node := t.label.get, dist := t.dist.get }

/-- One iteration: nodes are read one element ahead. -/
def mergeStep (A B : Side) (s : Merging) : Run Merging := do
  if s.nodeA = s.nodeB then
    let tmpDist := (← A.dist s.currOffsetA) + (← B.dist s.currOffsetB)
    let best := if tmpDist < s.best.currDistance then
        { highestLvlNode := s.nodeA, currDistance := tmpDist, idxA := s.currOffsetA
          idxB := s.currOffsetB }
      else s.best
    let nodeA ← A.node (s.currOffsetA + 1)
    let nodeB ← B.node (s.currOffsetB + 1)
    return { currOffsetA := s.currOffsetA + 1, currOffsetB := s.currOffsetB + 1, nodeA, nodeB
             best }
  else if s.nodeB < s.nodeA then
    let nodeB ← B.node (s.currOffsetB + 1)
    return { s with currOffsetB := s.currOffsetB + 1, nodeB := nodeB }
  else
    let nodeA ← A.node (s.currOffsetA + 1)
    return { s with currOffsetA := s.currOffsetA + 1, nodeA := nodeA }

/-- The loop, from the given offsets up to the given ends. -/
def mergeLoop (A B : Side) (startA endA startB endB : Int) : Run Selection := do
  let nodeA ← A.node startA
  let nodeB ← B.node startB
  let s ← whileLoop
    (fun s => return decide (s.currOffsetA < endA) && decide (s.currOffsetB < endB))
    (mergeStep A B) ((endA - startA).toNat + (endB - startB).toNat)
    { currOffsetA := startA, currOffsetB := startB, nodeA, nodeB
      best := { highestLvlNode := -1, currDistance := MAX_VALUE, idxA := -1, idxB := -1 } }
  return s.best

/-! ## The path -/

/-- One iteration of the loop of `getEdges`, on `currentNode` and `edgeStack`. -/
def getEdgesStep (H : HubLEdges) (N : HubLNodes) (highestLvlNode : Int) (s : Int × IntStack) :
    Run (Int × IntStack) := do
  let startIdx ← N.getLabelOffset s.1
  let endIdx ← N.getLabelOffset (s.1 + 1)
  let labelIdx ← binarySearchRange N.labelNode startIdx endIdx highestLvlNode
  let edgeId ← N.getLabelEdge labelIdx
  let currentNode ← H.getDest edgeId
  return (currentNode, ← s.2.push edgeId)

/-- `getEdges(currentNode, highestLvlNode, edgeStack)`. -/
def getEdges (fuel : Nat) (H : HubLEdges) (N : HubLNodes) (currentNode highestLvlNode : Int)
    (edgeStack : IntStack) : Run IntStack := do
  let (_, edgeStack) ← whileLoop (fun s : Int × IntStack => return decide (s.1 ≠ highestLvlNode))
    (getEdgesStep H N highestLvlNode) fuel (currentNode, edgeStack)
  return edgeStack

/-- One iteration of the inner loops of `calculateRoute`, on `edgeCalcStack` and
`resultNodes`.  The two parts of a shortcut are pushed in the given order. -/
def unpackStep (H : HubLEdges) (pushedFirst pushedLast : Int → Run Int) (s : IntStack × IntStack) :
    Run (IntStack × IntStack) := do
  let (currentEdge, edgeCalcStack) ← s.1.pop
  if H.isShortcut currentEdge then
    -- order of push is important
    let edgeCalcStack ← edgeCalcStack.push (← pushedFirst currentEdge)
    let edgeCalcStack ← edgeCalcStack.push (← pushedLast currentEdge)
    return (edgeCalcStack, s.2)
  else
    let resultNodes ← s.2.push (← H.getDest currentEdge)
    return (edgeCalcStack, resultNodes)

def unpackLoop (fuel : Nat) (H : HubLEdges) (pushedFirst pushedLast : Int → Run Int)
    (edgeCalcStack resultNodes : IntStack) : Run (IntStack × IntStack) :=
  whileLoop (fun s => return !s.1.isEmpty) (unpackStep H pushedFirst pushedLast) fuel
    (edgeCalcStack, resultNodes)

/-- The inner loop on the left side: a path is walked forwards. -/
def unpackLeft (fuel : Nat) (H : HubLEdges) (edgeCalcStack resultNodes : IntStack) :
    Run (IntStack × IntStack) :=
  unpackLoop fuel H H.getSecondShortcut H.getFirstShortcut edgeCalcStack resultNodes

/-- The inner loop on the right side: a path is walked backwards. -/
def unpackRight (fuel : Nat) (H : HubLEdges) (edgeCalcStack resultNodes : IntStack) :
    Run (IntStack × IntStack) :=
  unpackLoop fuel H H.getFirstShortcut H.getSecondShortcut edgeCalcStack resultNodes

/-- One iteration of the loop over the edges of the left side. -/
def leftStep (fuel : Nat) (H : HubLEdges) (r : HubLRouter) : Run HubLRouter := do
  let (edge, edgesLeft) ← r.edgesLeft.popFifo
  let edgeCalcStack ← r.edgeCalcStack.push edge
  let (edgeCalcStack, resultNodes) ← unpackLeft fuel H edgeCalcStack r.resultNodes
  return { r with
    edgesLeft := edgesLeft, edgeCalcStack := edgeCalcStack, resultNodes := resultNodes }

/-- One iteration of the loop over the edges of the right side. -/
def rightStep (fuel : Nat) (H : HubLEdges) (r : HubLRouter) : Run HubLRouter := do
  let (edge, edgesRight) ← r.edgesRight.pop
  let edgeCalcStack ← r.edgeCalcStack.push edge
  let (edgeCalcStack, resultNodes) ← unpackRight fuel H edgeCalcStack r.resultNodes
  return { r with
    edgesRight := edgesRight, edgeCalcStack := edgeCalcStack, resultNodes := resultNodes }

/-- `calculateRoute(start, dest)`. -/
def calculateRoute (fuel : Nat) (H : HubLEdges) (r : HubLRouter) (start dest : Int) :
    Run HubLRouter := do
  let resultNodes ← r.resultNodes.push start
  let r ← whileLoop (fun r : HubLRouter => return !r.edgesLeft.isEmpty) (leftStep fuel H) fuel
    { r with resultNodes := resultNodes }
  -- correct for highest lvl node being added twice otherwise (one from left, once from right)
  let (_, resultNodes) ← r.resultNodes.pop
  let r ← whileLoop (fun r : HubLRouter => return !r.edgesRight.isEmpty) (rightStep fuel H) fuel
    { r with resultNodes := resultNodes }
  let resultNodes ← r.resultNodes.push dest
  return { r with resultNodes := resultNodes }

/-- One iteration of the first loop of `addEdges`, on `nodeId` and `tmpStack`. -/
def climbStep (labels : TempLabels) (s : Int × IntStack) : Run (Int × IntStack) := do
  let nodeIdx ← labels.label.getIdx s.1
  let tmpStack ← s.2.push (← labels.edge.get nodeIdx)
  return (← labels.addInfo.get nodeIdx, tmpStack)

/-- One iteration of its second loop, on `tmpStack` and `resultStack`. -/
def moveStep (s : IntStack × IntStack) : Run (IntStack × IntStack) := do
  let (edge, tmpStack) ← s.1.popFifo
  return (tmpStack, ← s.2.push edge)

/-- `addEdges(resultStack, nodeId, stopId, ..)` for the side whose labels are
given. -/
def addEdges (fuel : Nat) (labels : TempLabels) (resultStack : IntStack) (nodeId stopId : Int) :
    Run IntStack := do
  let (_, tmpStack) ← whileLoop (fun s : Int × IntStack => return decide (s.1 ≠ stopId))
    (climbStep labels) fuel (nodeId, IntStack.new 20)
  -- we added the edges in the wrong order, now turn them around
  let (_, resultStack) ← whileLoop (fun s : IntStack × IntStack => return !s.1.isEmpty)
    moveStep fuel (tmpStack, resultStack)
  return resultStack

/-- The edges between a node with labels and the hub, which is the label at
`idx`. -/
def labelEdges (fuel : Nat) (H : HubLEdges) (N : HubLNodes) (edgeStack : IntStack)
    (nodeId highestLvlNode idx : Int) : Run IntStack := do
  if nodeId ≠ highestLvlNode then
    let nextEdge ← N.getLabelEdge idx
    let nextNode ← H.getDest nextEdge
    let edgeStack ← edgeStack.push nextEdge
    getEdges fuel H N nextNode highestLvlNode edgeStack
  else return edgeStack

/-- The edges between a node without labels and the hub, which is the temporary
label at `idx`. -/
def tempEdges (fuel : Nat) (H : HubLEdges) (N : HubLNodes) (labels : TempLabels)
    (edgeStack : IntStack) (nodeId highestLvlNode idx : Int) : Run IntStack := do
  let info ← labels.addInfo.get idx
  if info < -1 then
    -- additional info contains a node
    let edgeStack ← addEdges fuel labels edgeStack ((info + 2) * (-1)) nodeId
    let firstEdge ← labels.edge.get idx
    let edgeStack ← edgeStack.push firstEdge
    getEdges fuel H N (← H.getDest firstEdge) highestLvlNode edgeStack
  else if info ≠ -1 then
    -- if this is false, the highest lvl node is the start node
    addEdges fuel labels edgeStack info nodeId
  else return edgeStack

/-- One iteration of the loop that adds the nodes to the path. -/
def pathStep (s : List Int × IntStack) : Run (List Int × IntStack) := do
  let (node, resultNodes) ← s.2.popFifo
  return (s.1 ++ [node], resultNodes)

/-- The nodes of the result, in order. -/
def resultPath (fuel : Nat) (resultNodes : IntStack) : Run (List Int × IntStack) :=
  whileLoop (fun s : List Int × IntStack => return !s.2.isEmpty) pathStep fuel ([], resultNodes)

/-- The end of the four functions: the path over the edges of both sides. -/
def finish (fuel : Nat) (H : HubLEdges) (r : HubLRouter) (startId destId currDistance : Int) :
    Run (RoutingResult × HubLRouter) := do
  let r ← calculateRoute fuel H r startId destId
  let (path, resultNodes) ← resultPath fuel r.resultNodes
  return (RoutingResult.found path currDistance, { r with resultNodes := resultNodes })

/-! ## The four ways to route -/

/-- `route2Lbl(startId, destId)`. -/
def route2Lbl (fuel : Nat) (H : HubLEdges) (N : HubLNodes) (r : HubLRouter) (startId destId : Int) :
    Run (RoutingResult × HubLRouter) := do
  let currOffsetA ← N.getLabelOffset startId
  let currOffsetB ← N.getLabelOffset destId
  let endOffsetA ← N.getLabelOffset (startId + 1)
  let endOffsetB ← N.getLabelOffset (destId + 1)
  if currOffsetA = endOffsetA ∨ currOffsetB = endOffsetB then
    -- no route
    return (RoutingResult.notFound, r)
  else
    let best ← mergeLoop (storedSide N) (storedSide N) currOffsetA endOffsetA currOffsetB endOffsetB
    if best.highestLvlNode = -1 then
      -- no common label found
      return (RoutingResult.notFound, r)
    else
      let edgesRight ← labelEdges fuel H N r.edgesRight destId best.highestLvlNode best.idxB
      let edgesLeft ← labelEdges fuel H N r.edgesLeft startId best.highestLvlNode best.idxA
      finish fuel H { r with edgesRight := edgesRight, edgesLeft := edgesLeft } startId destId
        best.currDistance

/-- `routeLeftLbl(startId, destId)`. -/
def routeLeftLbl (fuel : Nat) (H : HubLEdges) (N : HubLNodes) (r : HubLRouter)
    (startId destId : Int) : Run (RoutingResult × HubLRouter) := do
  let (heap, labelHeap, right) ← calcTempLabels fuel H N r.heap r.labelHeap r.right destId
  let r := { r with heap := heap, labelHeap := labelHeap, right := right }
  let leftIdx ← N.getLabelOffset startId
  let leftMaxIdx ← N.getLabelOffset (startId + 1)
  let rightSize := r.right.label.size
  if leftIdx = leftMaxIdx ∨ rightSize = 0 then
    -- no route
    return (RoutingResult.notFound, r)
  else
    -- add one dummy output to prevent early evaluation of get from causing exceptions
    let label ← r.right.label.insertTail MAX_VALUE
    let r := { r with right := { r.right with label := label } }
    let best ← mergeLoop (storedSide N) (tempSide r.right) leftIdx leftMaxIdx 0 rightSize
    if best.highestLvlNode = -1 then
      -- no common label, so no route
      return (RoutingResult.notFound, r)
    else
      let edgesLeft ← labelEdges fuel H N r.edgesLeft startId best.highestLvlNode best.idxA
      let edgesRight ← tempEdges fuel H N r.right r.edgesRight destId best.highestLvlNode best.idxB
      finish fuel H { r with edgesRight := edgesRight, edgesLeft := edgesLeft } startId destId
        best.currDistance

/-- `routeRightLbl(startId, destId)`. -/
def routeRightLbl (fuel : Nat) (H : HubLEdges) (N : HubLNodes) (r : HubLRouter)
    (startId destId : Int) : Run (RoutingResult × HubLRouter) := do
  let (heap, labelHeap, left) ← calcTempLabels fuel H N r.heap r.labelHeap r.left startId
  let r := { r with heap := heap, labelHeap := labelHeap, left := left }
  let rightIdx ← N.getLabelOffset destId
  let rightMaxIdx ← N.getLabelOffset (destId + 1)
  let leftSize := r.left.label.size
  if rightIdx = rightMaxIdx ∨ leftSize = 0 then
    -- no route
    return (RoutingResult.notFound, r)
  else
    -- add one dummy output to prevent early evaluation of get from causing exceptions
    let label ← r.left.label.insertTail MAX_VALUE
    let r := { r with left := { r.left with label := label } }
    let best ← mergeLoop (storedSide N) (tempSide r.left) rightIdx rightMaxIdx 0 leftSize
    if best.highestLvlNode = -1 then
      -- no common label, so no route
      return (RoutingResult.notFound, r)
    else
      let edgesRight ← labelEdges fuel H N r.edgesRight destId best.highestLvlNode best.idxA
      let edgesLeft ← tempEdges fuel H N r.left r.edgesLeft startId best.highestLvlNode best.idxB
      finish fuel H { r with edgesRight := edgesRight, edgesLeft := edgesLeft } startId destId
        best.currDistance

/-- `route0Lbl(startId, destId)`. -/
def route0Lbl (fuel : Nat) (H : HubLEdges) (N : HubLNodes) (r : HubLRouter) (startId destId : Int) :
    Run (RoutingResult × HubLRouter) := do
  let (heap, labelHeap, left) ← calcTempLabels fuel H N r.heap r.labelHeap r.left startId
  let (heap, labelHeap, right) ← calcTempLabels fuel H N heap labelHeap r.right destId
  let r := { r with heap := heap, labelHeap := labelHeap, left := left, right := right }
  let leftSize := r.left.label.size
  let rightSize := r.right.label.size
  if leftSize = 0 ∨ rightSize = 0 then
    return (RoutingResult.notFound, r)
  else
    -- add one dummy output to prevent early evaluation of get from causing exceptions
    let labelLeft ← r.left.label.insertTail MAX_VALUE
    let labelRight ← r.right.label.insertTail MAX_VALUE
    let r := { r with
      left := { r.left with label := labelLeft }
      right := { r.right with label := labelRight } }
    let best ← mergeLoop (tempSide r.left) (tempSide r.right) 0 leftSize 0 rightSize
    if best.highestLvlNode = -1 then
      -- no common label, so no route
      return (RoutingResult.notFound, r)
    else
      let edgesLeft ← tempEdges fuel H N r.left r.edgesLeft startId best.highestLvlNode best.idxA
      let edgesRight ← tempEdges fuel H N r.right r.edgesRight destId best.highestLvlNode best.idxB
      finish fuel H { r with edgesRight := edgesRight, edgesLeft := edgesLeft } startId destId
        best.currDistance

/-- `routeGeneral(startNodeIdx, destNodeIdx)`. -/
def routeGeneral (fuel : Nat) (H : HubLEdges) (N : HubLNodes) (r : HubLRouter)
    (startNodeIdx destNodeIdx : Int) : Run (RoutingResult × HubLRouter) := do
  let r := reset r
  let startHasLabels ← N.nodeHasLabels startNodeIdx
  let destHasLabels ← N.nodeHasLabels destNodeIdx
  if startHasLabels && destHasLabels then route2Lbl fuel H N r startNodeIdx destNodeIdx
  else if !startHasLabels && !destHasLabels then route0Lbl fuel H N r startNodeIdx destNodeIdx
  else if startHasLabels then routeLeftLbl fuel H N r startNodeIdx destNodeIdx
  else routeRightLbl fuel H N r startNodeIdx destNodeIdx

/-- `route(startNodeId, destNodeId)`, without the calculation time. -/
def route (fuel : Nat) (H : HubLEdges) (N : HubLNodes) (r : HubLRouter)
    (startNodeId destNodeId : Int) : Run (RoutingResult × HubLRouter) :=
  routeGeneral fuel H N r startNodeId destNodeId

end HubLRouter

end SeaRouter
