import Mathlib.Data.List.ReduceOption
import SeaRouter.DijkstraGrid.GridCreator
import SeaRouter.HubLabelCreation.DynamicGridFile

/-!
# The edges that `createGrid` lists

`createGrid_eq` is the list itself: the edges of a node stand together, in the order
east, west, north, south.  The only edges without a reverse lead east over the
antimeridian, and each of them is the first one of its node.  So the import adds all the
reverse edges that are missing, when it returns at all.

* `NextTo` says which places are next to each other on the globe.
* `completed_iff`: the edges after the import join exactly those nodes.
* `answering_iff`: the import returns unless some node is `Stranded`.
-/

namespace SeaRouter

open Java FmiFile

/-! ## The completion of any list -/

namespace FmiFile

variable {E : List TmpEdge} {ks : List Int}

theorem reverse_injective : Function.Injective reverse := by
  intro e e' h
  obtain ⟨a, b, d⟩ := e
  obtain ⟨a', b', d'⟩ := e'
  simp only [reverse, TmpEdge.mk.injEq] at h ⊢
  tauto

theorem nodup_added (hE : E.Nodup) (hks : ks.Nodup) : (added E ks).Nodup := by
  apply List.Nodup.map reverse_injective
  rw [List.nodup_flatMap]
  constructor
  · intro k _
    exact ((List.takeWhile_sublist _).trans List.filter_sublist).nodup hE
  · apply hks.imp
    intro k k' hne e he he'
    exact hne ((DynamicGrid.mem_unanswered he).2.symm.trans (DynamicGrid.mem_unanswered he').2)

/-- The completion adds no edge twice. -/
theorem nodup_append_added (hE : E.Nodup) (hks : ks.Nodup) : (E ++ added E ks).Nodup := by
  rw [List.nodup_append]
  refine ⟨hE, nodup_added hE hks, ?_⟩
  intro e he a ha hea
  obtain ⟨e', _, hnot, rfl⟩ := exists_of_mem_added ha
  exact hnot ⟨e, he, by rw [hea]; exact ⟨rfl, rfl⟩⟩

end FmiFile

namespace GridCreator

variable {dimLat dimLong : Nat} {pointInWater : ℚ → ℚ → Bool} {gridNodes : List GridNode}
  {getDistance : GridNode → GridNode → Int}

/-! ## The list of the edges -/

/-- The places at which the neighbours of a node are looked up, in this order. -/
def neighbours (dimLat dimLong : Nat) (a : GridNode) : List (Option GridNode) :=
  [some (a.calcEasternNode (coordinateStepLongitude dimLong)),
    some (a.calcWesternNode (coordinateStepLongitude dimLong)),
    a.calcNorthernNode (coordinateStepLatitude dimLat),
    a.calcSouthernNode (coordinateStepLatitude dimLat)]

/-- The edges from the node `a`, whose id is `i`. -/
def edgesFrom (getDistance : GridNode → GridNode → Int) (dimLat dimLong : Nat)
    (gridNodes : List GridNode) (i : Nat) (a : GridNode) : List TmpEdge :=
  ((neighbours dimLat dimLong a).reduceOption.filter (· ∈ gridNodes)).map
    fun b => ⟨i, gridNodes.idxOf b, getDistance a b⟩

/-- The edges of all nodes. -/
def allEdges (getDistance : GridNode → GridNode → Int) (dimLat dimLong : Nat)
    (gridNodes : List GridNode) : List TmpEdge :=
  (List.range gridNodes.length).flatMap fun i =>
    (gridNodes[i]?).elim [] (edgesFrom getDistance dimLat dimLong gridNodes i)

theorem getNodeByLatLong_eq {store : NodeStore}
    (hstore : StoreHolds gridNodes gridNodes.length store)
    (b : GridNode) :
    getNodeByLatLong store b = if b ∈ gridNodes then some (gridNodes.idxOf b : Int) else none := by
  split_ifs with hb
  · rw [hstore]
    have hlt := List.idxOf_lt_length_of_mem hb
    exact ⟨by omega, by omega, by rw [Int.toNat_natCast]; exact List.getElem?_idxOf hb⟩
  · rw [Option.eq_none_iff_forall_ne_some]
    intro id hid
    exact hb (List.mem_of_getElem? ((hstore b id).mp hid).2.2)

/-- The loop over the neighbours of a node. -/
theorem addEdge_eq {store : NodeStore} (hstore : StoreHolds gridNodes gridNodes.length store)
    (i : Nat) (a : GridNode) :
    ∀ (nb : List (Option GridNode)) (edges : List TmpEdge),
      (nb.map fun b => b.bind (getNodeByLatLong store)).foldlM (addEdge getDistance gridNodes i a)
          edges
        = .ok (edges ++ (nb.reduceOption.filter (· ∈ gridNodes)).map
          fun b => ⟨i, gridNodes.idxOf b, getDistance a b⟩) := by
  intro nb
  induction nb with
  | nil =>
    intro edges
    simp [List.reduceOption]
  | cons b nb ih =>
    intro edges
    rw [List.map_cons, List.foldlM_cons]
    cases b with
    | none =>
      rw [List.reduceOption_cons_of_none]
      exact ih edges
    | some b =>
      rw [Option.bind_some, getNodeByLatLong_eq hstore, List.reduceOption_cons_of_some]
      by_cases hb : b ∈ gridNodes
      · have hget := rd_of_getElem? (List.getElem?_idxOf hb)
        simp only [if_pos hb, addEdge, hget, ok_bind, pure_eq_ok, ih]
        rw [List.filter_cons_of_pos (by simpa using hb), List.map_cons, List.append_assoc]
        rfl
      · simp only [if_neg hb, addEdge, ok_bind, pure_eq_ok, ih]
        rw [List.filter_cons_of_neg (by simpa using hb)]

theorem createGrid_eq (getDistance : GridNode → GridNode → Int) (dimLat dimLong : Nat)
    (hnodup : gridNodes.Nodup) :
    createGrid getDistance dimLat dimLong gridNodes
      = .ok (⟨gridNodes.map GridNode.latitude, gridNodes.map GridNode.longitude⟩,
        allEdges getDistance dimLat dimLong gridNodes) := by
  obtain ⟨store, hrun, hstore⟩ := coordinateNodeStore_spec hnodup
  obtain ⟨edges, hloop, rfl⟩ := foldlM_indices
    (f := addEdges getDistance gridNodes store (coordinateStepLatitude dimLat)
      (coordinateStepLongitude dimLong))
    (P := fun k edges => edges = (List.range k).flatMap fun i =>
      (gridNodes[i]?).elim [] (edgesFrom getDistance dimLat dimLong gridNodes i))
    (Nat.zero_le gridNodes.length) (b := []) rfl (by
      rintro k edges _ hk rfl
      refine ⟨_, ?_, rfl⟩
      rw [addEdges, rd_of_getElem? (List.getElem?_eq_getElem hk), ok_bind, List.range_succ,
        List.flatMap_append, List.flatMap_singleton, List.getElem?_eq_getElem hk, Option.elim_some]
      exact addEdge_eq hstore k _ (neighbours dimLat dimLong _) _)
  have h0 : ((0 : Nat) : Int) = 0 := rfl
  rw [h0] at hloop
  rw [createGrid, hrun, ok_bind, hloop, ok_bind, pure_eq_ok]
  rfl

theorem hasEdges_allEdges (hnodup : gridNodes.Nodup) :
    HasEdges getDistance dimLat dimLong gridNodes gridNodes.length
      (allEdges getDistance dimLat dimLong gridNodes) := by
  obtain ⟨edges, hrun, hedges⟩ := createGrid_spec getDistance dimLat dimLong hnodup
  rw [createGrid_eq getDistance dimLat dimLong hnodup, Except.ok.injEq, Prod.mk.injEq] at hrun
  rw [hrun.2]
  exact hedges

/-- One of the parts of a list. -/
theorem flatMap_range_single {α : Type} (f : Nat → List α) (i : Nat) : ∀ n,
    (List.range n).flatMap (fun j => if j = i then f j else []) = if i < n then f i else [] := by
  intro n
  induction n with
  | zero => rfl
  | succ n ih =>
    rw [List.range_succ, List.flatMap_append, ih, List.flatMap_singleton]
    by_cases hn : n = i
    · subst hn
      simp
    · rw [if_neg hn, List.append_nil]
      by_cases hi : i < n
      · rw [if_pos hi, if_pos (by omega)]
      · rw [if_neg hi, if_neg (by omega)]

theorem start_edgesFrom {i : Nat} {a : GridNode} {e : TmpEdge}
    (he : e ∈ edgesFrom getDistance dimLat dimLong gridNodes i a) : e.startNode = i := by
  obtain ⟨b, _, rfl⟩ := List.mem_map.mp he
  rfl

theorem outgoing_allEdges {i : Nat} {a : GridNode} (ha : gridNodes[i]? = some a) :
    outgoing (allEdges getDistance dimLat dimLong gridNodes) i
      = edgesFrom getDistance dimLat dimLong gridNodes i a := by
  have hi := (List.getElem?_eq_some_iff.mp ha).1
  have hpart : ∀ j : Nat, ((gridNodes[j]?).elim []
      (edgesFrom getDistance dimLat dimLong gridNodes j)).filter (fun e => e.startNode = (i : Int))
        = if j = i then (gridNodes[j]?).elim []
          (edgesFrom getDistance dimLat dimLong gridNodes j) else [] := by
    intro j
    cases hb : gridNodes[j]? with
    | none => simp
    | some b =>
      rw [Option.elim_some]
      split_ifs with hj
      · rw [List.filter_eq_self]
        intro e he
        rw [start_edgesFrom he, hj]
        exact decide_eq_true rfl
      · rw [List.filter_eq_nil_iff]
        intro e he hs
        rw [decide_eq_true_eq, start_edgesFrom he, Nat.cast_inj] at hs
        exact hj hs
  rw [outgoing, allEdges, List.filter_flatMap]
  simp only [hpart]
  rw [flatMap_range_single, if_pos hi, ha, Option.elim_some]

/-! ## Every edge once -/

/-- The nodes that the threads add, in any order. -/
theorem onGrid_of_perm (hlat : 0 < dimLat) (hlong : 0 < dimLong)
    (h : gridNodes.Perm (allNodes pointInWater dimLat dimLong)) :
    OnGrid pointInWater dimLat dimLong gridNodes :=
  ⟨h.nodup_iff.mpr (nodup_allNodes hlat hlong), fun _ => h.mem_iff.trans mem_allNodes⟩

theorem nodeAt_inj (hlat : 0 < dimLat) (hlong : 0 < dimLong) {j k j' k' : Nat} :
    nodeAt dimLat dimLong j k = nodeAt dimLat dimLong j' k' ↔ j = j' ∧ k = k' := by
  rw [nodeAt, nodeAt, GridNode.mk.injEq]
  constructor
  · intro h
    exact ⟨latAt_inj hlat h.1, longAt_inj hlong h.2⟩
  · intro h
    rw [h.1, h.2]
    exact ⟨rfl, rfl⟩

/-- The places at which the neighbours of a place are looked up. -/
theorem neighbours_eq (hlat : 0 < dimLat) (hlong : 2 < dimLong) {j k : Nat} (hk : k < dimLong) :
    neighbours dimLat dimLong (nodeAt dimLat dimLong j k) =
      [some (nodeAt dimLat dimLong j (if k = 0 then dimLong - 1 else k - 1)),
        some (nodeAt dimLat dimLong j (k + 1)),
        if j = 0 then none else some (nodeAt dimLat dimLong (j - 1) k),
        if j + 1 ≤ dimLat then some (nodeAt dimLat dimLong (j + 1) k) else none] := by
  simp only [neighbours, nodeAt, calcEasternNode_eq hlong, calcWesternNode_eq (by omega) _ hk,
    calcNorthernNode_eq hlat, calcSouthernNode_eq hlat]

theorem nodup_neighbours (hlat : 0 < dimLat) (hlong : 2 < dimLong) {j k : Nat} (hk : k < dimLong) :
    (neighbours dimLat dimLong (nodeAt dimLat dimLong j k)).reduceOption.Nodup := by
  have hinj : ∀ {a b c d : Nat}, nodeAt dimLat dimLong a b = nodeAt dimLat dimLong c d ↔
      a = c ∧ b = d := nodeAt_inj hlat (by omega)
  have heast : (if k = 0 then dimLong - 1 else k - 1) ≠ k + 1 ∧
      (if k = 0 then dimLong - 1 else k - 1) ≠ k := by
    split_ifs <;> omega
  rw [neighbours_eq hlat hlong hk]
  split_ifs <;>
    simp only [List.reduceOption_cons_of_some, List.reduceOption_cons_of_none,
      List.reduceOption_nil, List.nodup_cons, List.mem_cons, List.not_mem_nil, or_false,
      List.nodup_nil, and_true, hinj, not_false_eq_true] <;>
    omega

theorem OnGrid.nodup_edgesFrom (h : OnGrid pointInWater dimLat dimLong gridNodes)
    (hlat : 0 < dimLat) (hlong : 2 < dimLong) {i : Nat} {a : GridNode}
    (ha : gridNodes[i]? = some a) :
    (edgesFrom getDistance dimLat dimLong gridNodes i a).Nodup := by
  obtain ⟨j, k, _, hk, rfl, _⟩ := h.place ha
  apply List.Nodup.map_on
  · intro x hx y hy hxy
    have hidx := (TmpEdge.mk.inj hxy).2.1
    rw [Nat.cast_inj] at hidx
    exact (List.idxOf_inj (by simpa using (List.mem_filter.mp hx).2)).mp hidx
  · exact (nodup_neighbours hlat hlong hk).filter _

theorem OnGrid.nodup_allEdges (h : OnGrid pointInWater dimLat dimLong gridNodes)
    (hlat : 0 < dimLat) (hlong : 2 < dimLong) :
    (allEdges getDistance dimLat dimLong gridNodes).Nodup := by
  rw [allEdges, List.nodup_flatMap]
  constructor
  · intro i hi
    have hget := List.getElem?_eq_getElem (List.mem_range.mp hi)
    rw [hget]
    exact h.nodup_edgesFrom hlat hlong hget
  · apply List.nodup_range.imp
    intro i i' hne e he he'
    have hstart : ∀ i : Nat, e ∈ (gridNodes[i]?).elim []
        (edgesFrom getDistance dimLat dimLong gridNodes i) → e.startNode = i := by
      intro i he
      cases ha : gridNodes[i]? with
      | none => simp [ha] at he
      | some a =>
        rw [ha] at he
        exact start_edgesFrom he
    have := (hstart i he).symm.trans (hstart i' he')
    exact hne (by exact_mod_cast this)

/-! ## The edges without a reverse -/

/-- A step that is found in one direction only leads from the first place of a row to
the last one. -/
theorem neighbour_back (hlat : 0 < dimLat) (hlong : 2 < dimLong) {j k j' k' : Nat} (hj : j ≤ dimLat)
    (hk : k < dimLong) (hj' : j' ≤ dimLat) (hk' : k' < dimLong)
    (h : Neighbour dimLat dimLong (nodeAt dimLat dimLong j k) (nodeAt dimLat dimLong j' k')) :
    Neighbour dimLat dimLong (nodeAt dimLat dimLong j' k') (nodeAt dimLat dimLong j k) ↔
      ¬ (j' = j ∧ k = 0 ∧ k' = dimLong - 1) := by
  rw [neighbour_iff hlat hlong hk hj' hk', RowStep] at h
  rw [neighbour_iff hlat hlong hk' hj hk, RowStep]
  omega

theorem opposed_allEdges (hnodup : gridNodes.Nodup) {i i' : Nat} {a b : GridNode}
    (ha : gridNodes[i]? = some a) (hb : gridNodes[i']? = some b) (d : Int) :
    Opposed (allEdges getDistance dimLat dimLong gridNodes) ⟨i, i', d⟩ ↔
      Neighbour dimLat dimLong b a := by
  have hedges : HasEdges getDistance dimLat dimLong gridNodes gridNodes.length
      (allEdges getDistance dimLat dimLong gridNodes) := hasEdges_allEdges hnodup
  constructor
  · intro hopp
    obtain ⟨e, he, hstart, hdest⟩ := hopp
    obtain ⟨x, y, x', y', _, hx, hy, hn, rfl⟩ := (hedges e).mp he
    simp only [Nat.cast_inj] at hstart hdest
    subst hstart
    subst hdest
    rw [hb, Option.some.injEq] at hx
    rw [ha, Option.some.injEq] at hy
    rw [hx, hy]
    exact hn
  · intro hn
    have hlt := (List.getElem?_eq_some_iff.mp hb).1
    exact ⟨⟨i', i, getDistance b a⟩, (hedges _).mpr ⟨i', i, b, a, hlt, hb, ha, hn, rfl⟩, rfl, rfl⟩

/-- Such an edge is the first one of its node. -/
theorem OnGrid.mem_unanswered (h : OnGrid pointInWater dimLat dimLong gridNodes)
    (hlat : 0 < dimLat) (hlong : 2 < dimLong) {e : TmpEdge}
    (he : e ∈ allEdges getDistance dimLat dimLong gridNodes)
    (hnot : ¬ Opposed (allEdges getDistance dimLat dimLong gridNodes) e) :
    e ∈ unanswered (allEdges getDistance dimLat dimLong gridNodes) e.startNode := by
  obtain ⟨i, i', a, b, hi, ha, hb, hn, rfl⟩ := (hasEdges_allEdges h.nodup e).mp he
  rw [opposed_allEdges h.nodup ha hb] at hnot
  obtain ⟨j, k, hj, hk, rfl, _⟩ := h.place ha
  obtain ⟨j', k', hj', hk', rfl, _⟩ := h.place hb
  rw [neighbour_back hlat hlong hj hk hj' hk' hn, not_not] at hnot
  obtain ⟨rfl, rfl, rfl⟩ := hnot
  have hmem := List.mem_of_getElem? hb
  have hidx : gridNodes.idxOf (nodeAt dimLat dimLong j' (dimLong - 1)) = i' := by
    obtain ⟨hlt, hget⟩ := List.getElem?_eq_some_iff.mp hb
    rw [← hget]
    exact h.nodup.idxOf_getElem i' hlt
  have hfirst : ∃ rest, edgesFrom getDistance dimLat dimLong gridNodes i (nodeAt dimLat dimLong j' 0)
      = ⟨i, i', getDistance (nodeAt dimLat dimLong j' 0)
          (nodeAt dimLat dimLong j' (dimLong - 1))⟩ :: rest := by
    rw [edgesFrom, neighbours_eq hlat hlong hk, if_pos rfl, List.reduceOption_cons_of_some,
      List.filter_cons_of_pos (by simpa using hmem), List.map_cons, hidx]
    exact ⟨_, rfl⟩
  obtain ⟨rest, hrest⟩ := hfirst
  have hnot : ¬ Opposed (allEdges getDistance dimLat dimLong gridNodes)
      ⟨i, i', getDistance (nodeAt dimLat dimLong j' 0)
        (nodeAt dimLat dimLong j' (dimLong - 1))⟩ := by
    rw [opposed_allEdges h.nodup ha hb, neighbour_back hlat hlong hj hk hj' hk' hn, not_not]
    exact ⟨rfl, rfl, rfl⟩
  rw [unanswered, outgoing_allEdges ha, hrest, List.takeWhile_cons_of_pos (by simpa using hnot)]
  exact List.mem_cons_self

/-! ## The edges after the import -/

/-- Two points that are one step apart: around the globe or along a meridian. -/
def NextTo (dimLat dimLong : Nat) (a b : GridNode) : Prop :=
  (a.latitude = b.latitude ∧ ∃ z : Int,
      b.longitude = a.longitude + coordinateStepLongitude dimLong + 360 * z ∨
      a.longitude = b.longitude + coordinateStepLongitude dimLong + 360 * z) ∨
    a.longitude = b.longitude ∧ (b.latitude = a.latitude + coordinateStepLatitude dimLat ∨
      a.latitude = b.latitude + coordinateStepLatitude dimLat)

theorem NextTo.symm {a b : GridNode} (h : NextTo dimLat dimLong a b) :
    NextTo dimLat dimLong b a := by
  rcases h with ⟨hlat, z, hlong⟩ | ⟨hlong, hlat⟩
  · exact Or.inl ⟨hlat.symm, z, hlong.symm⟩
  · exact Or.inr ⟨hlong.symm, hlat.symm⟩

/-- One step to the east, modulo 360. -/
theorem longAt_step_iff (hlong : 2 < dimLong) {k k' : Nat} (hk : k < dimLong) (hk' : k' < dimLong) :
    (∃ z : Int, longAt dimLong k' = longAt dimLong k + coordinateStepLongitude dimLong + 360 * z) ↔
      k = k' + 1 ∨ (k = 0 ∧ k' + 1 = dimLong) := by
  constructor
  · intro hstep
    obtain ⟨z, hz⟩ := hstep
    exact longAt_step hlong hk hk' hz
  · intro hplace
    rcases hplace with rfl | ⟨rfl, hlast⟩
    · refine ⟨0, ?_⟩
      rw [longAt_succ]
      push_cast
      ring
    · refine ⟨-1, ?_⟩
      obtain rfl : k' = dimLong - 1 := by omega
      rw [longAt_zero, longAt_last (by omega)]
      push_cast
      ring

theorem latAt_step_iff (hlat : 0 < dimLat) {j j' : Nat} :
    latAt dimLat j' = latAt dimLat j + coordinateStepLatitude dimLat ↔ j = j' + 1 := by
  have hsucc : latAt dimLat (j' + 1) = latAt dimLat j' - coordinateStepLatitude dimLat :=
    latAt_succ j'
  constructor
  · intro hstep
    apply latAt_inj hlat
    rw [hsucc, hstep]
    ring
  · rintro rfl
    rw [hsucc]
    ring

theorem nextTo_nodeAt (hlat : 0 < dimLat) (hlong : 2 < dimLong) {j k j' k' : Nat}
    (hk : k < dimLong) (hk' : k' < dimLong) :
    NextTo dimLat dimLong (nodeAt dimLat dimLong j k) (nodeAt dimLat dimLong j' k') ↔
      (j = j' ∧ (RowStep dimLong k k' ∨ RowStep dimLong k' k)) ∨
        (k = k' ∧ (j = j' + 1 ∨ j' = j + 1)) := by
  have hrow : latAt dimLat j = latAt dimLat j' ↔ j = j' :=
    ⟨latAt_inj hlat, fun h => by rw [h]⟩
  have hcolumn : longAt dimLong k = longAt dimLong k' ↔ k = k' :=
    ⟨longAt_inj (by omega), fun h => by rw [h]⟩
  simp only [NextTo, nodeAt, hrow, hcolumn, exists_or, longAt_step_iff hlong hk hk',
    longAt_step_iff hlong hk' hk, latAt_step_iff hlat, RowStep]
  omega

/-- Both directions of a step are next to each other. -/
theorem OnGrid.nextTo_iff (h : OnGrid pointInWater dimLat dimLong gridNodes) (hlat : 0 < dimLat)
    (hlong : 2 < dimLong) {a b : GridNode} (ha : a ∈ gridNodes) (hb : b ∈ gridNodes) :
    NextTo dimLat dimLong a b ↔ Neighbour dimLat dimLong a b ∨ Neighbour dimLat dimLong b a := by
  obtain ⟨j, k, hj, hk, rfl, _⟩ := (h.mem_iff a).mp ha
  obtain ⟨j', k', hj', hk', rfl, _⟩ := (h.mem_iff b).mp hb
  rw [nextTo_nodeAt hlat hlong hk hk', neighbour_iff hlat hlong hk hj' hk',
    neighbour_iff hlat hlong hk' hj hk]
  simp only [RowStep]
  omega

/-- The edges join exactly the nodes that are next to each other. -/
def Joins (getDistance : GridNode → GridNode → Int) (dimLat dimLong : Nat)
    (gridNodes : List GridNode) (e : TmpEdge) : Prop :=
  ∃ (i i' : Nat) (a b : GridNode), gridNodes[i]? = some a ∧ gridNodes[i']? = some b ∧
    NextTo dimLat dimLong a b ∧ e = ⟨i, i', getDistance a b⟩

theorem OnGrid.completed_iff (h : OnGrid pointInWater dimLat dimLong gridNodes) (hlat : 0 < dimLat)
    (hlong : 2 < dimLong) (hdist : ∀ a b, getDistance a b = getDistance b a) {ks : List Int}
    (hks : Starts (allEdges getDistance dimLat dimLong gridNodes) ks) (e : TmpEdge) :
    e ∈ allEdges getDistance dimLat dimLong gridNodes ++
        added (allEdges getDistance dimLat dimLong gridNodes) ks ↔
      Joins getDistance dimLat dimLong gridNodes e := by
  have hedges : HasEdges getDistance dimLat dimLong gridNodes gridNodes.length
      (allEdges getDistance dimLat dimLong gridNodes) := hasEdges_allEdges h.nodup
  rw [List.mem_append]
  constructor
  · intro he
    rcases he with he | he
    · obtain ⟨i, i', a, b, _, ha, hb, hn, rfl⟩ := (hedges e).mp he
      exact ⟨i, i', a, b, ha, hb, (h.nextTo_iff hlat hlong (List.mem_of_getElem? ha)
        (List.mem_of_getElem? hb)).mpr (Or.inl hn), rfl⟩
    · obtain ⟨e', he', _, rfl⟩ := exists_of_mem_added he
      obtain ⟨i, i', a, b, _, ha, hb, hn, rfl⟩ := (hedges e').mp he'
      refine ⟨i', i, b, a, hb, ha, (h.nextTo_iff hlat hlong (List.mem_of_getElem? hb)
        (List.mem_of_getElem? ha)).mpr (Or.inr hn), ?_⟩
      rw [hdist b a]
      rfl
  · intro he
    obtain ⟨i, i', a, b, ha, hb, hnext, rfl⟩ := he
    have hi := (List.getElem?_eq_some_iff.mp ha).1
    have hi' := (List.getElem?_eq_some_iff.mp hb).1
    by_cases hn : Neighbour dimLat dimLong a b
    · exact Or.inl ((hedges _).mpr ⟨i, i', a, b, hi, ha, hb, hn, rfl⟩)
    · -- the reverse of a step that is found in one direction only
      have hback := ((h.nextTo_iff hlat hlong (List.mem_of_getElem? ha)
        (List.mem_of_getElem? hb)).mp hnext).resolve_left hn
      have hE : (⟨i', i, getDistance b a⟩ : TmpEdge) ∈
          allEdges getDistance dimLat dimLong gridNodes :=
        (hedges _).mpr ⟨i', i, b, a, hi', hb, ha, hback, rfl⟩
      have hnot : ¬ Opposed (allEdges getDistance dimLat dimLong gridNodes)
          ⟨i', i, getDistance b a⟩ := by
        rw [opposed_allEdges h.nodup hb ha]
        exact hn
      right
      have hadd := DynamicGrid.mem_added_of_unanswered hks (h.mem_unanswered hlat hlong hE hnot)
      rw [hdist b a] at hadd
      exact hadd

/-- No node has more than four of these edges. -/
theorem OnGrid.fourEach (h : OnGrid pointInWater dimLat dimLong gridNodes) (hlat : 0 < dimLat)
    (hlong : 2 < dimLong) {S : List TmpEdge} (hnodup : S.Nodup)
    (hS : ∀ e, e ∈ S ↔ Joins getDistance dimLat dimLong gridNodes e) : DynamicGrid.FourEach S := by
  intro v
  rcases List.eq_nil_or_concat (outgoing S v) with hnil | ⟨_, e₀, hlast⟩
  · rw [hnil]
    exact Nat.zero_le 4
  have he₀ : e₀ ∈ outgoing S v := by
    rw [hlast]
    simp
  rw [outgoing, List.mem_filter, decide_eq_true_eq, hS] at he₀
  obtain ⟨⟨i, _, a, _, ha, _, _, rfl⟩, rfl⟩ := he₀
  obtain ⟨j, k, hj, hk, rfl, _⟩ := h.place ha
  -- the places around that of the node
  have hsub : outgoing S (i : Int) ⊆ ([nodeAt dimLat dimLong j (if k = 0 then dimLong - 1 else k - 1),
      nodeAt dimLat dimLong j (if k + 1 = dimLong then 0 else k + 1),
      nodeAt dimLat dimLong (j - 1) k, nodeAt dimLat dimLong (j + 1) k].map
        fun b => (⟨i, gridNodes.idxOf b, getDistance (nodeAt dimLat dimLong j k) b⟩ : TmpEdge)) := by
    intro e he
    rw [outgoing, List.mem_filter, decide_eq_true_eq, hS] at he
    obtain ⟨⟨i₁, i', a, b, ha', hb, hnext, rfl⟩, hstart⟩ := he
    obtain rfl : i₁ = i := Nat.cast_inj.mp (show (i₁ : Int) = i from hstart)
    obtain rfl := Option.some.inj (ha.symm.trans ha')
    have hidx : gridNodes.idxOf b = i' := by
      obtain ⟨hlt, hget⟩ := List.getElem?_eq_some_iff.mp hb
      rw [← hget]
      exact h.nodup.idxOf_getElem i' hlt
    obtain ⟨j', k', _, hk', rfl, _⟩ := h.place hb
    rw [nextTo_nodeAt hlat hlong hk hk', RowStep, RowStep] at hnext
    refine List.mem_map.mpr ⟨_, ?_, by rw [hidx]⟩
    simp only [List.mem_cons, List.not_mem_nil, or_false,
      nodeAt_inj hlat (show 0 < dimLong by omega)]
    split_ifs <;> omega
  exact ((hnodup.filter _).subperm hsub).length_le

/-! ## When the import returns -/

/-- The last node of a row that has the first one of the row next to it, and no other
node. -/
def Stranded (pointInWater : ℚ → ℚ → Bool) (dimLat dimLong j : Nat) : Prop :=
  nodeAt dimLat dimLong j 0 ∈ allNodes pointInWater dimLat dimLong ∧
    nodeAt dimLat dimLong j (dimLong - 1) ∈ allNodes pointInWater dimLat dimLong ∧
    ∀ b ∈ allNodes pointInWater dimLat dimLong,
      NextTo dimLat dimLong (nodeAt dimLat dimLong j (dimLong - 1)) b → b = nodeAt dimLat dimLong j 0

theorem OnGrid.mem_iff_allNodes (h : OnGrid pointInWater dimLat dimLong gridNodes) (a : GridNode) :
    a ∈ gridNodes ↔ a ∈ allNodes pointInWater dimLat dimLong :=
  (h.mem_iff a).trans mem_allNodes.symm

/-- Each node that an edge leads to has edges, unless one is stranded. -/
theorem OnGrid.answering_iff (h : OnGrid pointInWater dimLat dimLong gridNodes) (hlat : 0 < dimLat)
    (hlong : 2 < dimLong) :
    Answering (allEdges getDistance dimLat dimLong gridNodes) ↔
      ∀ j, ¬ Stranded pointInWater dimLat dimLong j := by
  have hedges : HasEdges getDistance dimLat dimLong gridNodes gridNodes.length
      (allEdges getDistance dimLat dimLong gridNodes) := hasEdges_allEdges h.nodup
  constructor
  · intro hans j hstrand
    obtain ⟨hfirst, hlast, honly⟩ := hstrand
    rw [← h.mem_iff_allNodes] at hfirst hlast
    obtain ⟨i, ha⟩ := List.mem_iff_getElem?.mp hfirst
    obtain ⟨i', hb⟩ := List.mem_iff_getElem?.mp hlast
    obtain ⟨j₁, k₁, hj, _, heq, _⟩ := h.place ha
    obtain ⟨rfl, rfl⟩ := (nodeAt_inj hlat (by omega)).mp heq
    have hn : Neighbour dimLat dimLong (nodeAt dimLat dimLong j 0)
        (nodeAt dimLat dimLong j (dimLong - 1)) := by
      rw [neighbour_iff hlat hlong (by omega) hj (by omega), RowStep]
      exact Or.inl ⟨rfl, Or.inr (Or.inr ⟨rfl, by omega⟩)⟩
    obtain ⟨e', he', hstart⟩ := hans _ ((hedges _).mpr
      ⟨i, i', _, _, (List.getElem?_eq_some_iff.mp ha).1, ha, hb, hn, rfl⟩)
    obtain ⟨x, y, c, d, _, hc, hd, hcd, rfl⟩ := (hedges e').mp he'
    obtain rfl : x = i' := Nat.cast_inj.mp (show (x : Int) = i' from hstart)
    obtain rfl := Option.some.inj (hb.symm.trans hc)
    have hd' := List.mem_of_getElem? hd
    have hnext := (h.nextTo_iff hlat hlong hlast hd').mpr (Or.inl hcd)
    obtain rfl := honly d ((h.mem_iff_allNodes d).mp hd') hnext
    rw [neighbour_back hlat hlong hj (by omega) hj (by omega) hn] at hcd
    exact hcd ⟨rfl, rfl, rfl⟩
  · intro hno e he
    obtain ⟨i, i', a, b, _, ha, hb, hn, rfl⟩ := (hedges e).mp he
    by_contra hnone
    have hlone : ∀ c ∈ gridNodes, ¬ Neighbour dimLat dimLong b c := by
      intro c hc hbc
      obtain ⟨y, hy⟩ := List.mem_iff_getElem?.mp hc
      exact hnone ⟨_, (hedges _).mpr
        ⟨i', y, b, c, (List.getElem?_eq_some_iff.mp hb).1, hb, hy, hbc, rfl⟩, rfl⟩
    -- a node that leads to `b` is the first one of its row, and `b` the last one
    have hrow : ∀ c ∈ gridNodes, Neighbour dimLat dimLong c b → ∃ j, j ≤ dimLat ∧
        c = nodeAt dimLat dimLong j 0 ∧ b = nodeAt dimLat dimLong j (dimLong - 1) := by
      intro c hc hcb
      have hback := hlone c hc
      obtain ⟨j, k, hj, hk, rfl, _⟩ := (h.mem_iff c).mp hc
      obtain ⟨j', k', hj', hk', rfl, _⟩ := h.place hb
      rw [neighbour_back hlat hlong hj hk hj' hk' hcb, not_not] at hback
      obtain ⟨rfl, rfl, rfl⟩ := hback
      exact ⟨j', hj', rfl, rfl⟩
    have ha' := List.mem_of_getElem? ha
    have hb' := List.mem_of_getElem? hb
    obtain ⟨j, _, rfl, rfl⟩ := hrow a ha' hn
    refine hno j ⟨(h.mem_iff_allNodes _).mp ha', (h.mem_iff_allNodes _).mp hb', ?_⟩
    intro c hc hnext
    rw [← h.mem_iff_allNodes] at hc
    have hcb := ((h.nextTo_iff hlat hlong hb' hc).mp hnext).resolve_left (hlone c hc)
    obtain ⟨j', _, rfl, heq⟩ := hrow c hc hcb
    rw [((nodeAt_inj hlat (by omega)).mp heq).1]

end GridCreator

end SeaRouter
