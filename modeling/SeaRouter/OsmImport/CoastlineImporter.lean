import SeaRouter.CoastlineGrid.CoastlineWays
import SeaRouter.Lib.Collections

/-!
# `osmimport/CoastlineImporter.java`

The parser of the file calls `processNode` and `processWay` for what it finds.  A way only
has the ids of its nodes, so the importer keeps the nodes that it has seen in a map.  The
parser itself is not modelled: it hands over any list of entities.

* `importPBF_eq`: the import never throws.  A coastline gets those of its nodes that came
  before it; the others are left out, and their neighbours are joined.
* `importPBF_order`: when the nodes of a coastline come before it, the order of the
  entities changes nothing but the order of the coastlines.

The list of coastlines is not emptied by `importPBF`, so a second import returns the
coastlines of both files.
-/

namespace SeaRouter

open Java

variable {δ φ : Type}

/-- `parallelpbf.entity.Node`. -/
structure OsmNode (δ : Type) where
  id : Int
  lat : δ
  lon : δ

/-- `parallelpbf.entity.Way`. -/
structure OsmWay where
  nodes : List Int
  tags : HashMap String String

/-- What the parser finds in a file. -/
inductive OsmEntity (δ : Type)
  | node (n : OsmNode δ)
  | way (w : OsmWay)

/-- The fields of `CoastlineImporter`; `allNodes` may be null. -/
structure CoastlineImporter (φ : Type) where
  coastLineWays : List (CoastlineWay φ)
  allNodes : Option (HashMap Int (Point φ))

namespace CoastlineImporter

/-- `CoastlineImporter()`. -/
def new : CoastlineImporter φ where
  coastLineWays := []
  allNodes := some []

def isCoastlineEntity (way : OsmWay) : Bool :=
  (way.tags.get "natural").toOption = some "coastline" && decide (0 < way.nodes.length) &&
    (way.tags.get "coastline").toOption ≠ some "bogus"

/-- The map, when it is not null. -/
def nodeMap (s : CoastlineImporter φ) : Run (HashMap Int (Point φ)) :=
  match s.allNodes with
  | some allNodes => return allNodes
  | none => throw .nullPointer

def processWay (s : CoastlineImporter φ) (way : OsmWay) : Run (CoastlineImporter φ) := do
  if isCoastlineEntity way then
    let allNodes ← s.nodeMap
    let points := way.nodes.foldl (fun points id =>
      match (allNodes.get id).toOption with
      | some node => points ++ [node]
      | none => points) []
    return { s with coastLineWays := s.coastLineWays ++ [{ points := points }] }
  else return s

section

variable (toFloat : δ → φ)

def processNode (s : CoastlineImporter φ) (node : OsmNode δ) : Run (CoastlineImporter φ) := do
  let allNodes ← s.nodeMap
  let point : Point φ := { lat := toFloat node.lat, lon := toFloat node.lon }
  return { s with allNodes := some (allNodes.put node.id point) }

/-- A call of the parser. -/
def process (s : CoastlineImporter φ) : OsmEntity δ → Run (CoastlineImporter φ)
  | .node n => processNode toFloat s n
  | .way w => processWay s w

def onCompletion (s : CoastlineImporter φ) : CoastlineImporter φ := { s with allNodes := none }

/-- `importPBF(pbfCoastlineFilePath)`, with the entities of the file. -/
def importPBF (s : CoastlineImporter φ) (entities : List (OsmEntity δ)) :
    Run (List (CoastlineWay φ) × CoastlineImporter φ) := do
  let s ← entities.foldlM (process toFloat) { s with allNodes := some [] }
  let s := onCompletion s
  return (s.coastLineWays, s)

/-! ## What is imported -/

def nodesOf (entities : List (OsmEntity δ)) : List (OsmNode δ) :=
  entities.filterMap fun
    | .node n => some n
    | .way _ => none

/-- The ways that are coastlines. -/
def coastlinesOf (entities : List (OsmEntity δ)) : List OsmWay :=
  entities.filterMap fun
    | .node _ => none
    | .way w => if isCoastlineEntity w then some w else none

/-- The point of the last node with the id. -/
def pointAt (nodes : List (OsmNode δ)) (id : Int) : Option (Point φ) :=
  (nodes.reverse.find? fun n => n.id = id).map fun n =>
    { lat := toFloat n.lat, lon := toFloat n.lon }

/-- The coastline, with the points of those of its nodes that are in the list. -/
def resolve (nodes : List (OsmNode δ)) (way : OsmWay) : CoastlineWay φ where
  points := way.nodes.filterMap (pointAt toFloat nodes)

/-- The coastlines of the entities that come after `nodes`. -/
def imported (nodes : List (OsmNode δ)) : List (OsmEntity δ) → List (CoastlineWay φ)
  | [] => []
  | .node n :: entities => imported (nodes ++ [n]) entities
  | .way w :: entities =>
    (if isCoastlineEntity w then [resolve toFloat nodes w] else []) ++ imported nodes entities

end

variable {toFloat : δ → φ} {entities : List (OsmEntity δ)} {nodes : List (OsmNode δ)}

/-- The map holds the points of the nodes. -/
def Maps (toFloat : δ → φ) (nodes : List (OsmNode δ)) (allNodes : HashMap Int (Point φ)) : Prop :=
  ∀ id, (allNodes.get id).toOption = pointAt toFloat nodes id

theorem pointAt_append (n : OsmNode δ) (id : Int) :
    pointAt toFloat (nodes ++ [n]) id
      = if id = n.id then some { lat := toFloat n.lat, lon := toFloat n.lon }
        else pointAt toFloat nodes id := by
  rw [pointAt, pointAt, List.reverse_append, List.reverse_singleton, List.singleton_append,
    List.find?_cons]
  by_cases h : id = n.id
  · simp [h]
  · simp [h, Ne.symm h]

theorem maps_put {allNodes : HashMap Int (Point φ)} (h : Maps toFloat nodes allNodes)
    (n : OsmNode δ) :
    Maps toFloat (nodes ++ [n])
      (allNodes.put n.id { lat := toFloat n.lat, lon := toFloat n.lon }) := by
  intro id
  rw [HashMap.get_put, pointAt_append]
  split_ifs
  · rfl
  · exact h id

/-- The loop over the nodes of a way. -/
theorem foldl_points {allNodes : HashMap Int (Point φ)} (h : Maps toFloat nodes allNodes)
    (ids : List Int) (points : List (Point φ)) :
    ids.foldl (fun points id =>
      match (allNodes.get id).toOption with
      | some node => points ++ [node]
      | none => points) points = points ++ ids.filterMap (pointAt toFloat nodes) := by
  induction ids generalizing points with
  | nil => simp
  | cons id ids ih =>
    rw [List.foldl_cons, ih, List.filterMap_cons, h id]
    cases pointAt toFloat nodes id with
    | none => rfl
    | some p => simp

theorem foldlM_process (entities : List (OsmEntity δ)) (ways : List (CoastlineWay φ))
    {allNodes : HashMap Int (Point φ)} (h : Maps toFloat nodes allNodes) :
    ∃ allNodes', entities.foldlM (process toFloat) ⟨ways, some allNodes⟩
      = .ok ⟨ways ++ imported toFloat nodes entities, some allNodes'⟩ := by
  induction entities generalizing ways nodes allNodes with
  | nil =>
    refine ⟨allNodes, ?_⟩
    rw [imported, List.append_nil]
    rfl
  | cons e entities ih =>
    rw [List.foldlM_cons]
    cases e with
    | node n => exact ih ways (maps_put h n)
    | way w =>
      rw [process, processWay, imported]
      by_cases hw : isCoastlineEntity w
      · simp only [if_pos hw, nodeMap, pure_eq_ok, ok_bind, foldl_points h]
        obtain ⟨allNodes', hrun⟩ := ih (ways ++ [resolve toFloat nodes w]) h
        refine ⟨allNodes', ?_⟩
        rw [List.append_assoc] at hrun
        exact hrun
      · simp only [if_neg hw, pure_eq_ok, ok_bind, List.nil_append]
        exact ih ways h

theorem maps_nil : Maps toFloat [] [] := by
  intro id
  rfl

/-- Every coastline has the points of those of its nodes that came before it. -/
theorem importPBF_eq (s : CoastlineImporter φ) (entities : List (OsmEntity δ)) :
    importPBF toFloat s entities
      = .ok (s.coastLineWays ++ imported toFloat [] entities,
          ⟨s.coastLineWays ++ imported toFloat [] entities, none⟩) := by
  obtain ⟨allNodes', hrun⟩ := foldlM_process entities s.coastLineWays
    (show Maps toFloat [] [] from maps_nil)
  rw [importPBF, hrun, ok_bind]
  rfl

/-! ## The order of the entities -/

/-- No node of a coastline comes after it. -/
def NodesFirst : List (OsmEntity δ) → Prop
  | [] => True
  | .node _ :: entities => NodesFirst entities
  | .way w :: entities =>
    (isCoastlineEntity w = true → ∀ n ∈ nodesOf entities, n.id ∉ w.nodes) ∧ NodesFirst entities

theorem pointAt_append_of_not_mem {more : List (OsmNode δ)} {id : Int}
    (h : ∀ n ∈ more, n.id ≠ id) :
    pointAt toFloat (nodes ++ more) id = pointAt toFloat nodes id := by
  have hnone : more.reverse.find? (fun n => decide (n.id = id)) = none := by
    rw [List.find?_eq_none]
    intro n hn
    rw [decide_eq_true_eq]
    exact h n (List.mem_reverse.mp hn)
  rw [pointAt, pointAt, List.reverse_append, List.find?_append, hnone, Option.none_or]

theorem resolve_append {more : List (OsmNode δ)} {w : OsmWay} (h : ∀ n ∈ more, n.id ∉ w.nodes) :
    resolve toFloat (nodes ++ more) w = resolve toFloat nodes w := by
  rw [resolve, resolve, List.filterMap_congr]
  intro id hid
  apply pointAt_append_of_not_mem
  intro n hn heq
  exact h n hn (heq ▸ hid)

/-- The coastlines have all their nodes. -/
theorem imported_eq (h : NodesFirst entities) :
    imported toFloat nodes entities
      = (coastlinesOf entities).map (resolve toFloat (nodes ++ nodesOf entities)) := by
  induction entities generalizing nodes with
  | nil => rfl
  | cons e entities ih =>
    cases e with
    | node n =>
      rw [imported, ih h, List.append_assoc]
      rfl
    | way w =>
      have hnodes : nodesOf (.way w :: entities) = nodesOf entities := rfl
      rw [imported, ih h.2, hnodes]
      by_cases hw : isCoastlineEntity w
      · have hway : coastlinesOf (.way w :: entities) = w :: coastlinesOf entities := by
          simp [coastlinesOf, hw]
        rw [if_pos hw, hway, List.map_cons, resolve_append (h.1 hw)]
        rfl
      · have hway : coastlinesOf (.way w :: entities) = coastlinesOf entities := by
          simp [coastlinesOf, hw]
        rw [if_neg hw, hway, List.nil_append]

theorem pointAt_eq_some (hids : (nodes.map OsmNode.id).Nodup) {id : Int} {p : Point φ} :
    pointAt toFloat nodes id = some p ↔
      ∃ n ∈ nodes, n.id = id ∧ p = { lat := toFloat n.lat, lon := toFloat n.lon } := by
  rw [pointAt, Option.map_eq_some_iff]
  constructor
  · intro h
    obtain ⟨n, hfind, hp⟩ := h
    have hid := List.find?_some hfind
    exact ⟨n, List.mem_reverse.mp (List.mem_of_find?_eq_some hfind), of_decide_eq_true hid,
      hp.symm⟩
  · intro h
    obtain ⟨n, hn, rfl, rfl⟩ := h
    cases hfind : nodes.reverse.find? (fun m => decide (m.id = n.id)) with
    | none =>
      have hno := List.find?_eq_none.mp hfind n (List.mem_reverse.mpr hn)
      simp at hno
    | some m =>
      have hid : m.id = n.id := by
        have := List.find?_some hfind
        exact of_decide_eq_true this
      have hm := List.mem_reverse.mp (List.mem_of_find?_eq_some hfind)
      obtain rfl := List.inj_on_of_nodup_map hids hm hn hid
      exact ⟨m, rfl, rfl⟩

theorem resolve_perm {nodes' : List (OsmNode δ)} (hperm : nodes.Perm nodes')
    (hids : (nodes.map OsmNode.id).Nodup) (w : OsmWay) :
    resolve toFloat nodes w = resolve toFloat nodes' w := by
  have hids' := (hperm.map OsmNode.id).nodup_iff.mp hids
  rw [resolve, resolve]
  congr 2
  funext id
  apply Option.ext
  intro p
  rw [pointAt_eq_some hids, pointAt_eq_some hids']
  simp only [hperm.mem_iff]

/-- When no node of a coastline comes after it, the coastlines have all their nodes, and the
order of the entities only changes the order of the coastlines and of their edges. -/
theorem importPBF_order (toFloat : δ → φ) (s : CoastlineImporter φ)
    {entities entities' : List (OsmEntity δ)} (hperm : entities.Perm entities')
    (hids : ((nodesOf entities).map OsmNode.id).Nodup) (hfirst : NodesFirst entities)
    (hfirst' : NodesFirst entities') :
    ∃ ways ways' t t', importPBF toFloat s entities = .ok (s.coastLineWays ++ ways, t) ∧
      importPBF toFloat s entities' = .ok (s.coastLineWays ++ ways', t') ∧
      ways = (coastlinesOf entities).map (resolve toFloat (nodesOf entities)) ∧
      ways.Perm ways' ∧ (CoastlineWays.wayEdges ways).Perm (CoastlineWays.wayEdges ways') := by
  have hways : (imported toFloat [] entities).Perm (imported toFloat [] entities') := by
    rw [imported_eq hfirst, imported_eq hfirst', List.nil_append, List.nil_append]
    have hsame : resolve toFloat (nodesOf entities') = resolve toFloat (nodesOf entities) := by
      funext w
      exact (resolve_perm (hperm.filterMap _) hids w).symm
    rw [hsame]
    exact (hperm.filterMap _).map _
  exact ⟨_, _, _, _, importPBF_eq s entities, importPBF_eq s entities', imported_eq hfirst, hways,
    hways.flatMap_right _⟩

/-- Two nodes and the coastline between them. -/
theorem importPBF_order_swapped : ∃ ways ways' t t',
    importPBF id new [.node ⟨7, (1 : Int), 2⟩, .node ⟨8, 3, 4⟩,
        .way ⟨[7, 8], [("natural", "coastline")]⟩] = .ok (ways, t) ∧
      importPBF id new [.node ⟨8, (3 : Int), 4⟩, .node ⟨7, 1, 2⟩,
        .way ⟨[7, 8], [("natural", "coastline")]⟩] = .ok (ways', t') ∧
      ways = [⟨[⟨1, 2⟩, ⟨3, 4⟩]⟩] ∧ ways.Perm ways' ∧
      (CoastlineWays.wayEdges ways).Perm (CoastlineWays.wayEdges ways') := by
  have hswap : List.Perm
      [OsmEntity.node ⟨7, (1 : Int), 2⟩, .node ⟨8, 3, 4⟩, .way ⟨[7, 8], [("natural", "coastline")]⟩]
      [.node ⟨8, 3, 4⟩, .node ⟨7, 1, 2⟩, .way ⟨[7, 8], [("natural", "coastline")]⟩] :=
    .swap _ _ _
  obtain ⟨ways, ways', t, t', hrun, hrun', hways, hperm, hedges⟩ := importPBF_order id new hswap
    (by decide) (by simp [NodesFirst, nodesOf]) (by simp [NodesFirst, nodesOf])
  refine ⟨ways, ways', t, t', hrun, hrun', hways.trans ?_, hperm, hedges⟩
  have hcoast : isCoastlineEntity ⟨[7, 8], [("natural", "coastline")]⟩ = true := by decide +kernel
  simp [coastlinesOf, hcoast, resolve, pointAt, nodesOf]

end CoastlineImporter

end SeaRouter
