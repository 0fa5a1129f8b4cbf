import SeaRouter.HubLabelCreation.CHDijkstra
import SeaRouter.Utils.IntArraySet

/-!
# `hublablecreation/LabelCreator.java`: the contraction

`calcNextLvl` contracts all nodes of one level: it picks them in the order of
`calcOrder`, no two of them neighbours, lets the threads search for shortcuts
in the grid as it is, adds the shortcuts and then removes the nodes.
`calculateCH` does this until no node is left.  The threads only read what
they share, so they run one after the other here.  The order in which the
nodes are contracted comes from a random generator in the source and is an
argument here; `Preprocessing` shuffles it as `main` does.
-/

namespace SeaRouter

open Java

/-- The static fields of `LabelCreator`, `Nodes`, `Edges` and `DynamicGrid`
that the contraction uses. -/
structure LabelCreator where
  edges : Edges
  grid : DynamicGrid
  levels : List Int
  contracted : List Bool
  isNeighbour : List Bool
  alreadyShortcut : List IntArraySet
  calcOrder : List Int
  nodesToCalc : List Int
  nonContractedNum : Int
deriving DecidableEq, Repr

namespace LabelCreator

def NUM_OF_THREADS : Nat := 16

/-- The loop that marks the neighbours of a node, so that no two directly
connected nodes are on the same level. -/
def markNeighbours (s : LabelCreator) (nodeId : Int) (isNeighbour : List Bool) :
    Run (List Bool) := do
  let edgeCount ← s.grid.getCurrentEdgeCount nodeId
  let edges ← s.grid.getCurrentEdges nodeId
  (← slice edges 0 edgeCount).foldlM (fun a edgeId => do wr a (← s.edges.getDest edgeId) true)
    isNeighbour

/-- One iteration of the loop that picks the nodes of the level. -/
def selectNode (lvl : Int) (s : LabelCreator) (nodeId : Int) : Run LabelCreator := do
  if !(← rd s.contracted nodeId) && !(← rd s.isNeighbour nodeId) then
    -- contract this node in this iteration
    let contracted ← wr s.contracted nodeId true
    let isNeighbour ← wr s.isNeighbour nodeId true
    let isNeighbour ← markNeighbours s nodeId isNeighbour
    let levels ← wr s.levels nodeId lvl
    return { s with
      contracted, isNeighbour, levels
      nonContractedNum := s.nonContractedNum - 1
      nodesToCalc := s.nodesToCalc ++ [nodeId] }
  else return s

/-- The loop that picks the nodes of the level. -/
def selectNodes (lvl : Int) (s : LabelCreator) : Run LabelCreator :=
  s.calcOrder.foldlM (selectNode lvl)
    { s with nodesToCalc := [], isNeighbour := List.replicate s.isNeighbour.length false }

/-- The threads, with the nodes dealt out to them in turn. -/
def distribute (nodesToCalc : List Int) : List CHDijkstra :=
  nodesToCalc.zipIdx.foldl
    (fun threads (id, i) => threads.modify (i % NUM_OF_THREADS) (CHDijkstra.addNodeId · id))
    (List.replicate NUM_OF_THREADS CHDijkstra.new)

/-- One iteration of the loop that adds the shortcuts of a thread. -/
def addShortcut (s : LabelCreator) (shortcut : Shortcut) : Run LabelCreator := do
  let known ← rd s.alreadyShortcut shortcut.startId
  if ← known.contains shortcut.destId then return s
  else
    let (firstEdgeId, edges) ← s.edges.addShortcutEdge shortcut.startId shortcut.destId
      shortcut.distance shortcut.edgeId1 shortcut.edgeId2
    let grid ← s.grid.addEdge shortcut.startId firstEdgeId
    let alreadyShortcut ←
      wr s.alreadyShortcut shortcut.startId (← known.add shortcut.destId)
    return { s with edges, grid, alreadyShortcut }

/-- The loop that removes the contracted nodes, the last one first. -/
def removeNodes (s : LabelCreator) : Run LabelCreator := do
  let grid ← s.nodesToCalc.reverse.foldlM (DynamicGrid.removeNode s.edges) s.grid
  return { s with grid }

def calcNextLvl (lvl : Int) (s : LabelCreator) : Run LabelCreator := do
  let s ← selectNodes lvl s
  let threads ← (distribute s.nodesToCalc).mapM (CHDijkstra.run s.edges s.grid)
  let s ← threads.foldlM (fun s thread => thread.shortcuts.foldlM addShortcut s) s
  removeNodes s

/-- The state with which `calculateCH` begins, for a graph with `nodeCount`
nodes and the contraction order `calcOrder`. -/
def start (edges : Edges) (grid : DynamicGrid) (nodeCount : Nat) (calcOrder : List Int) :
    LabelCreator where
  edges := edges
  grid := grid
  levels := List.replicate nodeCount 0
  contracted := List.replicate nodeCount false
  isNeighbour := List.replicate nodeCount false
  alreadyShortcut := List.replicate nodeCount (IntArraySet.new 1 20)
  calcOrder := calcOrder
  nodesToCalc := []
  nonContractedNum := nodeCount

/-- `calculateCH()`; each level contracts at least one node. -/
def calculateCH (edges : Edges) (grid : DynamicGrid) (nodeCount : Nat) (calcOrder : List Int) :
    Run LabelCreator := do
  let (s, _) ← whileLoop (fun state => return 0 < state.1.nonContractedNum)
    (fun state => do return (← calcNextLvl state.2 state.1, state.2 + 1)) nodeCount
    (start edges grid nodeCount calcOrder, (0 : Int))
  return s

end LabelCreator

end SeaRouter
