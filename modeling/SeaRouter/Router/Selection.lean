import SeaRouter.Router.FoldLabels

/-!
# The selected hub

A request first selects a common label and then collects the path over it.
`select` is the first part of the four ways to route and `extract` the second
one; `route_eq` says that `route` is both, one after the other.

A side of the request is the labels of its node or the temporary ones
(`SideLabels`).  In both cases it knows what the stored edges and the labels
behind them lead to, so that the two sides have a node of a shortest way in
common: `select_spec` says that the selected distance is the one of the graph.
-/

namespace SeaRouter

open Java WGraph

namespace HubLRouter

open TempLabels

/-! ## The two parts of a request -/

/-- `route2Lbl` up to the selection. -/
def select2Lbl (N : HubLNodes) (r : HubLRouter) (startId destId : Int) :
    Run (Selection × HubLRouter) := do
  let currOffsetA ← N.getLabelOffset startId
  let currOffsetB ← N.getLabelOffset destId
  let endOffsetA ← N.getLabelOffset (startId + 1)
  let endOffsetB ← N.getLabelOffset (destId + 1)
  if currOffsetA = endOffsetA ∨ currOffsetB = endOffsetB then return (noSelection, r)
  else
    let best ← mergeLoop (storedSide N) (storedSide N) currOffsetA endOffsetA currOffsetB endOffsetB
    return (best, r)

/-- `routeLeftLbl` up to the selection. -/
def selectLeftLbl (fuel : Nat) (H : HubLEdges) (N : HubLNodes) (r : HubLRouter)
    (startId destId : Int) : Run (Selection × HubLRouter) := do
  let (heap, labelHeap, right) ← calcTempLabels fuel H N r.heap r.labelHeap r.right destId
  let r := { r with heap := heap, labelHeap := labelHeap, right := right }
  let leftIdx ← N.getLabelOffset startId
  let leftMaxIdx ← N.getLabelOffset (startId + 1)
  let rightSize := r.right.label.size
  if leftIdx = leftMaxIdx ∨ rightSize = 0 then return (noSelection, r)
  else
    let label ← r.right.label.insertTail MAX_VALUE
    let r := { r with right := { r.right with label := label } }
    let best ← mergeLoop (storedSide N) (tempSide r.right) leftIdx leftMaxIdx 0 rightSize
    return (best, r)

/-- `routeRightLbl` up to the selection. -/
def selectRightLbl (fuel : Nat) (H : HubLEdges) (N : HubLNodes) (r : HubLRouter)
    (startId destId : Int) : Run (Selection × HubLRouter) := do
  let (heap, labelHeap, left) ← calcTempLabels fuel H N r.heap r.labelHeap r.left startId
  let r := { r with heap := heap, labelHeap := labelHeap, left := left }
  let rightIdx ← N.getLabelOffset destId
  let rightMaxIdx ← N.getLabelOffset (destId + 1)
  let leftSize := r.left.label.size
  if rightIdx = rightMaxIdx ∨ leftSize = 0 then return (noSelection, r)
  else
    let label ← r.left.label.insertTail MAX_VALUE
    let r := { r with left := { r.left with label := label } }
    let best ← mergeLoop (storedSide N) (tempSide r.left) rightIdx rightMaxIdx 0 leftSize
    return (best, r)

/-- `route0Lbl` up to the selection. -/
def select0Lbl (fuel : Nat) (H : HubLEdges) (N : HubLNodes) (r : HubLRouter)
    (startId destId : Int) : Run (Selection × HubLRouter) := do
  let (heap, labelHeap, left) ← calcTempLabels fuel H N r.heap r.labelHeap r.left startId
  let (heap, labelHeap, right) ← calcTempLabels fuel H N heap labelHeap r.right destId
  let r := { r with heap := heap, labelHeap := labelHeap, left := left, right := right }
  let leftSize := r.left.label.size
  let rightSize := r.right.label.size
  if leftSize = 0 ∨ rightSize = 0 then return (noSelection, r)
  else
    let labelLeft ← r.left.label.insertTail MAX_VALUE
    let labelRight ← r.right.label.insertTail MAX_VALUE
    let r := { r with
      left := { r.left with label := labelLeft }
      right := { r.right with label := labelRight } }
    let best ← mergeLoop (tempSide r.left) (tempSide r.right) 0 leftSize 0 rightSize
    return (best, r)

/-- The selection of a request, by the function that the two nodes ask for. -/
def select (fuel : Nat) (H : HubLEdges) (N : HubLNodes) (r : HubLRouter)
    (startNodeIdx destNodeIdx : Int) : Run (Selection × HubLRouter) := do
  let r := reset r
  let startHasLabels ← N.nodeHasLabels startNodeIdx
  let destHasLabels ← N.nodeHasLabels destNodeIdx
  if startHasLabels && destHasLabels then select2Lbl N r startNodeIdx destNodeIdx
  else if !startHasLabels && !destHasLabels then select0Lbl fuel H N r startNodeIdx destNodeIdx
  else if startHasLabels then selectLeftLbl fuel H N r startNodeIdx destNodeIdx
  else selectRightLbl fuel H N r startNodeIdx destNodeIdx

/-- The rest of the request: the edges of both sides and the path over them. -/
def extract (fuel : Nat) (H : HubLEdges) (N : HubLNodes) (r : HubLRouter) (startId destId : Int)
    (best : Selection) : Run (RoutingResult × HubLRouter) := do
  let startHasLabels ← N.nodeHasLabels startId
  let destHasLabels ← N.nodeHasLabels destId
  let hub := best.highestLvlNode
  if startHasLabels && destHasLabels then
    let edgesRight ← labelEdges fuel H N r.edgesRight destId hub best.idxB
    let edgesLeft ← labelEdges fuel H N r.edgesLeft startId hub best.idxA
    finish fuel H { r with edgesRight := edgesRight, edgesLeft := edgesLeft } startId destId
      best.currDistance
  else if !startHasLabels && !destHasLabels then
    let edgesLeft ← tempEdges fuel H N r.left r.edgesLeft startId hub best.idxA
    let edgesRight ← tempEdges fuel H N r.right r.edgesRight destId hub best.idxB
    finish fuel H { r with edgesRight := edgesRight, edgesLeft := edgesLeft } startId destId
      best.currDistance
  else if startHasLabels then
    let edgesLeft ← labelEdges fuel H N r.edgesLeft startId hub best.idxA
    let edgesRight ← tempEdges fuel H N r.right r.edgesRight destId hub best.idxB
    finish fuel H { r with edgesRight := edgesRight, edgesLeft := edgesLeft } startId destId
      best.currDistance
  else
    let edgesRight ← labelEdges fuel H N r.edgesRight destId hub best.idxA
    let edgesLeft ← tempEdges fuel H N r.left r.edgesLeft startId hub best.idxB
    finish fuel H { r with edgesRight := edgesRight, edgesLeft := edgesLeft } startId destId
      best.currDistance

variable {H : HubLEdges} {N : HubLNodes}

/-- A request is its selection and, if there is a common label, the path over it. -/
theorem route_eq (fuel : Nat) (r : HubLRouter) (startId destId : Int) :
    route fuel H N r startId destId = (do
      let (best, r) ← select fuel H N r startId destId
      if best.highestLvlNode = -1 then return (RoutingResult.notFound, r)
      else extract fuel H N r startId destId best) := by
  unfold route routeGeneral select extract
  cases hs : N.nodeHasLabels startId with
  | error e => rfl
  | ok a =>
    cases ht : N.nodeHasLabels destId with
    | error e => rfl
    | ok b =>
      cases a <;> cases b
      · simp only [ok_bind, Bool.and_self, Bool.not_false, Bool.false_eq_true, if_false, if_true,
          route0Lbl, select0Lbl, bind_assoc]
        congr 1
        funext x
        congr 1
        funext y
        split_ifs
        · rfl
        · simp only [bind_assoc, pure_bind]
      · simp only [ok_bind, Bool.and_true, Bool.and_false, Bool.not_true, Bool.false_eq_true,
          if_false, routeRightLbl, selectRightLbl, bind_assoc]
        congr 1
        funext x
        congr 1
        funext i
        congr 1
        funext j
        split_ifs
        · rfl
        · simp only [bind_assoc, pure_bind]
      · simp only [ok_bind, Bool.and_true, Bool.and_false, Bool.not_true, Bool.not_false,
          Bool.false_eq_true, if_false, if_true, routeLeftLbl, selectLeftLbl, bind_assoc]
        congr 1
        funext x
        congr 1
        funext i
        congr 1
        funext j
        split_ifs
        · rfl
        · simp only [bind_assoc, pure_bind]
      · simp only [ok_bind, Bool.and_self, if_true, route2Lbl, select2Lbl, bind_assoc]
        congr 1
        funext i
        congr 1
        funext j
        congr 1
        funext i'
        congr 1
        funext j'
        split_ifs
        · rfl
        · simp only [bind_assoc, pure_bind]

/-! ## What a side knows -/

variable {G : Int → Int → Int → Prop} {n : Nat} {ups : Int → List Int}
  {ent : Int → List (Int × Int × Int)} {T₁ T : Int → Option Entry} {ps : List (Int × Int)}

/-- The labels of one side, as pairs of a node and a distance: they have all that
the stored edges lead to and the labels behind them. -/
structure SideLabels (G : Int → Int → Int → Prop) (H : HubLEdges) (N : HubLNodes)
    (ups : Int → List Int) (ent : Int → List (Int × Int × Int)) (x : Int)
    (l : List (Int × Int)) : Prop where
  sorted : (l.map Prod.fst).Pairwise (· < ·)
  walk : ∀ h a, (h, a) ∈ l → 0 ≤ h ∧ Walk G x h a
  stored : ∀ y c, Walk (Stored H N ups) x y c → ∃ a, a ≤ c ∧ (y, a) ∈ l
  label : ∀ y c h e d, Walk (Stored H N ups) x y c → Labelled N y → (h, e, d) ∈ ent y →
    ∃ a, a ≤ c + d ∧ (h, a) ∈ l

/-- Two sides have a node of a shortest way in common, with the exact distances. -/
theorem SideLabels.cover (hd : CutData G n H N ups ent) {s t : Int} {la lb : List (Int × Int)}
    (hs0 : 0 ≤ s ∧ s < n) (ht0 : 0 ≤ t ∧ t < n) (hs : SideLabels G H N ups ent s la)
    (ht : SideLabels G H N ups ent t lb) {d : Int} (hdist : IsDist G s t d) :
    ∃ x a b, (x, a) ∈ la ∧ (x, b) ∈ lb ∧ a + b = d := by
  obtain ⟨x, y, a, m, c, hx, hy, hm, hsum, hor⟩ := hd.meet hdist
  -- the distances are not larger than those on the way, so they are those on the way
  have hfit : ∀ h a' b', (h, a') ∈ la → (h, b') ∈ lb → a' + b' ≤ d → a' + b' = d := by
    intro h a' b' ha' hb' hle
    have := hdist.2 _ (walk_over hd.symm (hs.walk h a' ha').2 (ht.walk h b' hb').2)
    omega
  rcases hor with rfl | ⟨hxl, hyl⟩
  · have hm0 := hm.nonneg hd.nonneg
    obtain ⟨a', ha', hmem⟩ := hs.stored x a hx
    obtain ⟨b', hb', hmem'⟩ := ht.stored x c hy
    exact ⟨x, a', b', hmem, hmem', hfit x a' b' hmem hmem' (by omega)⟩
  · obtain ⟨h, e, p, e', q, hp, hq, hpq⟩ := hd.cover x y m
      (hd.stored_node hx hs0.1 hs0.2) (hd.stored_node hy ht0.1 ht0.2) hxl hyl hm
    obtain ⟨a', ha', hmem⟩ := hs.label x a h e p hx hxl hp
    obtain ⟨b', hb', hmem'⟩ := ht.label y c h e' q hy hyl hq
    exact ⟨h, a', b', hmem, hmem', hfit h a' b' hmem hmem' (by omega)⟩

theorem sideLabels_hubs (hd : CutData G n H N ups ent) {x : Int} (h0 : 0 ≤ x) (h1 : x < n)
    (hx : Labelled N x) : SideLabels G H N ups ent x (hubs ent x) := by
  constructor
  · have := hd.sorted x
    rw [hubs, List.map_map]
    exact this
  · intro h a hmem
    obtain ⟨e, he⟩ := mem_hubs.mp hmem
    exact ⟨(hd.hub x h e a he).1, (hd.exact x h e a he).1⟩
  · intro y c hw
    obtain ⟨rfl, rfl⟩ := CutData.stored_labelled hx hw
    obtain ⟨e, he⟩ := hd.self_label h0 h1 hx
    exact ⟨0, le_refl 0, mem_hubs.mpr ⟨e, he⟩⟩
  · intro y c h e d hw _ hlabel
    obtain ⟨rfl, rfl⟩ := CutData.stored_labelled hx hw
    exact ⟨d, by omega, mem_hubs.mpr ⟨e, hlabel⟩⟩

/-- The temporary labels as pairs. -/
def tempHubs (T : Int → Option Entry) (xs : List Int) : List (Int × Int) :=
  xs.map fun x => (x, column Entry.dist T x)

theorem mem_tempHubs {xs : List Int} (hmem : ∀ x, x ∈ xs ↔ (T x).isSome) {h a : Int} :
    (h, a) ∈ tempHubs T xs ↔ ∃ en, T h = some en ∧ en.dist = a := by
  rw [tempHubs, List.mem_map]
  constructor
  · intro hex
    obtain ⟨x, hx, heq⟩ := hex
    obtain ⟨en, hen⟩ := Option.isSome_iff_exists.mp ((hmem x).mp hx)
    simp only [Prod.mk.injEq, column, hen, Option.map_some, Option.getD_some] at heq
    exact ⟨en, heq.1 ▸ hen, heq.2⟩
  · intro hex
    obtain ⟨en, hen, rfl⟩ := hex
    exact ⟨h, (hmem h).mpr (by rw [hen]; rfl), by simp [column, hen]⟩

theorem sideLabels_temp (hd : CutData G n H N ups ent) {x : Int} {xs : List Int}
    (hc : Collected H N ups n ent x T₁ T ps) (hsorted : xs.Pairwise (· < ·))
    (hmem : ∀ x, x ∈ xs ↔ (T x).isSome) : SideLabels G H N ups ent x (tempHubs T xs) := by
  constructor
  · have hid : (Prod.fst ∘ fun x : Int => (x, column Entry.dist T x)) = id := rfl
    rw [tempHubs, List.map_map, hid, List.map_id]
    exact hsorted
  · intro h a hmem'
    obtain ⟨en, hen, rfl⟩ := (mem_tempHubs hmem).mp hmem'
    exact ⟨(hc.node hd hen).1, hc.walk hd hen⟩
  · intro y c hw
    obtain ⟨en, hen, hle⟩ := hc.le_stored hw
    exact ⟨en.dist, hle, (mem_tempHubs hmem).mpr ⟨en, hen, rfl⟩⟩
  · intro y c h e d hw hlab hlabel
    obtain ⟨en, hen, hle⟩ := hc.le_label hw hlab hlabel
    exact ⟨en.dist, hle, (mem_tempHubs hmem).mpr ⟨en, hen, rfl⟩⟩

/-! ## The temporary labels with the dummy element -/

/-- The table with `MAX_VALUE` behind its nodes. -/
structure Sealed (t : TempLabels) (T : Int → Option Entry) (xs : List Int) : Prop where
  ordered : t.label.orderedBySorting = true
  label : t.label.Holds (xs ++ [MAX_VALUE])
  dist : t.dist.Holds (xs.map (column Entry.dist T))
  edge : t.edge.Holds (xs.map (column Entry.edge T))
  addInfo : t.addInfo.Holds (xs.map (column Entry.addInfo T))
  sorted : xs.Pairwise (· < ·)
  small : ∀ x ∈ xs, x < MAX_VALUE
  mem : ∀ x, x ∈ xs ↔ (T x).isSome

theorem exists_sealed {t : TempLabels} {xs : List Int} (h : TempLabels.Table t T xs) :
    ∃ label, t.label.insertTail MAX_VALUE = .ok label ∧ Sealed { t with label := label } T xs := by
  obtain ⟨label, hrun, hord, hlabel⟩ := OrderedIntSet.insertTail_spec h.label MAX_VALUE
  exact ⟨label, hrun, hord.trans h.ordered, hlabel, h.dist, h.edge, h.addInfo, h.sorted, h.small,
    h.mem⟩

namespace Sealed

variable {t : TempLabels} {xs : List Int}

theorem reads (h : Sealed t T xs) : Reads (tempSide t) 0 (tempHubs T xs) := by
  have hget : ∀ (i : Nat) (x d : Int), (tempHubs T xs)[i]? = some (x, d) →
      xs[i]? = some x ∧ column Entry.dist T x = d := by
    intro i x d hi
    rw [tempHubs, List.getElem?_map, Option.map_eq_some_iff] at hi
    obtain ⟨y, hy, heq⟩ := hi
    simp only [Prod.mk.injEq] at heq
    rw [hy, ← heq.1]
    exact ⟨rfl, heq.2⟩
  constructor
  · intro i x d hi
    obtain ⟨hx, _⟩ := hget i x d hi
    rw [zero_add]
    apply OrderedIntSet.get_spec h.label
    rw [List.getElem?_append_left (List.getElem?_eq_some_iff.mp hx).1, hx]
  · intro i x d hi
    obtain ⟨hx, rfl⟩ := hget i x d hi
    rw [zero_add]
    apply OrderedIntSet.get_spec h.dist
    rw [List.getElem?_map, hx]
    rfl
  · refine ⟨MAX_VALUE, ?_⟩
    rw [zero_add]
    apply OrderedIntSet.get_spec h.label
    rw [tempHubs, List.length_map, List.getElem?_concat_length]

/-- The entry at an index of the table. -/
theorem entry_at (h : Sealed t T xs) {i : Nat} {x d : Int}
    (hi : (tempHubs T xs)[i]? = some (x, d)) :
    ∃ en, T x = some en ∧ en.dist = d ∧ t.edge.get i = .ok en.edge ∧
      t.addInfo.get i = .ok en.addInfo := by
  rw [tempHubs, List.getElem?_map, Option.map_eq_some_iff] at hi
  obtain ⟨y, hy, heq⟩ := hi
  obtain ⟨en, hen⟩ := Option.isSome_iff_exists.mp ((h.mem y).mp (List.mem_of_getElem? hy))
  simp only [Prod.mk.injEq, column, hen, Option.map_some, Option.getD_some] at heq
  have hcol : ∀ p : Entry → Int, (xs.map (column p T))[i]? = some (p en) := by
    intro p
    rw [List.getElem?_map, hy]
    simp [column, hen]
  exact ⟨en, heq.1 ▸ hen, heq.2, OrderedIntSet.get_spec h.edge (hcol _),
    OrderedIntSet.get_spec h.addInfo (hcol _)⟩

/-- The entry of a node. -/
theorem entry_of (h : Sealed t T xs) {x : Int} {en : Entry} (hen : T x = some en) :
    ∃ idx : Int, t.label.getIdx x = .ok idx ∧ t.edge.get idx = .ok en.edge ∧
      t.addInfo.get idx = .ok en.addInfo := by
  have hmem : x ∈ xs := (h.mem x).mpr (by rw [hen]; rfl)
  have hget := getElem?_rank h.sorted hmem
  have hidx := OrderedIntSet.getIdx_spec h.ordered h.label (by simp) h.sorted h.small
    (h.small x hmem)
  rw [encodeRank, if_pos hmem] at hidx
  have hcol : ∀ p : Entry → Int, (xs.map (column p T))[rank xs x]? = some (p en) := by
    intro p
    rw [List.getElem?_map, hget]
    simp [column, hen]
  exact ⟨_, hidx, OrderedIntSet.get_spec h.edge (hcol _), OrderedIntSet.get_spec h.addInfo (hcol _)⟩

end Sealed

/-! ## The selection -/

/-- What the router needs of its data structures before a request. -/
structure Usable (r : HubLRouter) : Prop where
  heap : ∃ M, r.heap.Holds M
  labelHeap : ∃ L, r.labelHeap.Holds L
  left : r.left.clear.Cleared
  right : r.right.clear.Cleared
  empty : Stacks (reset r) [] [] []

theorem usable_new : Usable HubLRouter.new where
  heap := ⟨_, DistanceHeap.new_holds 1000 (by omega)⟩
  labelHeap := ⟨_, DistanceHeap.new_holds 1000 (by omega)⟩
  left := new_cleared.clear
  right := new_cleared.clear
  empty := ⟨IntStack.clear_holds (by decide), IntStack.clear_holds (by decide),
    IntStack.clear_holds (by decide), IntStack.clear_holds (by decide)⟩

/-- A side when the labels are merged: where its labels `l` are read from, and
that they are what `SideLabels` asks for. -/
inductive SideAt (H : HubLEdges) (N : HubLNodes) (ups : Int → List Int) (n : Nat)
    (ent : Int → List (Int × Int × Int)) (t : TempLabels) (x : Int) : List (Int × Int) → Int → Prop
  | stored : Labelled N x →
      SideAt H N ups n ent t x (hubs ent x) (rowStart (labelTable n ent) x.toNat : Int)
  | temp {T₁ T : Int → Option Entry} {ps : List (Int × Int)} {xs : List Int} : ¬ Labelled N x →
      Collected H N ups n ent x T₁ T ps → Sealed t T xs →
      SideAt H N ups n ent t x (tempHubs T xs) 0

theorem SideAt.sideLabels (hd : CutData G n H N ups ent) {t : TempLabels} {x : Int} (h0 : 0 ≤ x)
    (h1 : x < n) {l : List (Int × Int)} {off : Int} (h : SideAt H N ups n ent t x l off) :
    SideLabels G H N ups ent x l := by
  cases h with
  | stored hx => exact sideLabels_hubs hd h0 h1 hx
  | temp _ hc hs => exact sideLabels_temp hd hc hs.sorted hs.mem

/-- The hub `h` is selected; of the two sides it is the label at `i` and at `j`. -/
structure Picks (N : HubLNodes) (s t : Int) (la lb : List (Int × Int)) (offA offB : Int)
    (best : Selection) (i j : Nat) (h a b : Int) : Prop where
  left : la[i]? = some (h, a)
  right : lb[j]? = some (h, b)
  hub : best.highestLvlNode = h
  dist : best.currDistance = a + b
  least : ∀ g a' b', (g, a') ∈ la → (g, b') ∈ lb → a' + b' = a + b → h ≤ g
  -- `routeRightLbl` merges the sides the other way round
  idx : if ¬ Labelled N s ∧ Labelled N t then
      best.idxA = offB + j ∧ best.idxB = offA + i
    else best.idxA = offA + i ∧ best.idxB = offB + j

/-- What a request selects: nothing, if the two nodes are not connected, and
otherwise a hub on a shortest way. -/
def Selects (G : Int → Int → Int → Prop) (N : HubLNodes) (s t : Int) (la lb : List (Int × Int))
    (offA offB : Int) (best : Selection) : Prop :=
  (best = noSelection ∧ ¬ ∃ L, Walk G s t L) ∨
    ∃ i j h a b, 0 ≤ h ∧ IsDist G s t (a + b) ∧ Picks N s t la lb offA offB best i j h a b

/-- The selection with the two sides exchanged. -/
def Selection.swap (best : Selection) : Selection :=
  { best with idxA := best.idxB, idxB := best.idxA }

theorem IsBest.swap {la lb : List (Int × Int)} {offA offB : Int} {best : Selection}
    (h : IsBest offA offB la lb best) : IsBest offB offA lb la best.swap := by
  constructor
  · rcases h.found with rfl | ⟨i, j, g, a, b, hi, hj, hmax, rfl⟩
    · exact Or.inl rfl
    · exact Or.inr ⟨j, i, g, b, a, hj, hi, by omega, by rw [Selection.swap, add_comm a b]⟩
  · intro g a b ha hb hmax
    have := h.least g b a hb ha (by omega)
    rw [add_comm a b]
    exact this

theorem IsBest.selects (hd : CutData G n H N ups ent) {s t : Int} (hs : 0 ≤ s ∧ s < n)
    (ht : 0 ≤ t ∧ t < n) {la lb : List (Int × Int)} {offA offB : Int} {best : Selection}
    (hla : SideLabels G H N ups ent s la) (hlb : SideLabels G H N ups ent t lb)
    (h : IsBest offA offB la lb (if ¬ Labelled N s ∧ Labelled N t then best.swap else best)) :
    Selects G N s t la lb offA offB best := by
  rcases h.isDist hd.symm (hd.bound s t) hla.walk (fun x b hb => (hlb.walk x b hb).2)
    (fun d hdist => SideLabels.cover hd hs ht hla hlb hdist) hd.nonneg
    with ⟨hnone, hno⟩ | ⟨i, j, x, a, b, hi, hj, hx, hdist, hsel⟩
  · refine Or.inl ⟨?_, hno⟩
    split_ifs at hnone with hswap
    · have := congrArg Selection.swap hnone
      exact this
    · exact hnone
  · refine Or.inr ⟨i, j, x, a, b, hx, hdist, hi, hj, ?_, ?_, ?_, ?_⟩
    · have := congrArg Selection.highestLvlNode hsel
      split_ifs at this <;> exact this
    · have := congrArg Selection.currDistance hsel
      split_ifs at this <;> exact this
    · intro g a' b' ha' hb' hsum
      have hlt := hd.bound s t _ hdist
      have hleast := h.least g a' b' ha' hb' (by omega)
      rw [hsel] at hleast
      simp only at hleast
      omega
    · split_ifs at hsel with hswap
      · rw [if_pos hswap]
        exact ⟨congrArg Selection.idxB hsel, congrArg Selection.idxA hsel⟩
      · rw [if_neg hswap]
        exact ⟨congrArg Selection.idxA hsel, congrArg Selection.idxB hsel⟩

/-- The offsets of a node with labels; it has at least one. -/
theorem labels_offset (hd : CutData G n H N ups ent) {u : Nat} (hu : u < n)
    (hlab : Labelled N (u : Int)) :
    N.getLabelOffset u = .ok (rowStart (labelTable n ent) u : Int) ∧
      N.getLabelOffset ((u : Int) + 1) =
        .ok ((rowStart (labelTable n ent) u : Int) + (hubs ent (u : Int)).length) ∧
      0 < (hubs ent (u : Int)).length := by
  obtain ⟨h1, h2⟩ := hd.arrays.offset hu
  obtain ⟨e, he⟩ := hd.self_label (v := (u : Int)) (by omega) (by omega) hlab
  have hpos := List.length_pos_of_mem (mem_hubs.mpr ⟨e, he⟩)
  refine ⟨h1, ?_, hpos⟩
  rw [h2]
  simp [hubs]

/-- The selection between two nodes with labels, whatever the labels are. -/
theorem select_labelled (ha : LabelArrays n N ent)
    (hsorted : ∀ v, ((ent v).map fun e => e.1).Pairwise (· < ·)) {u v : Nat} (hu : u < n)
    (hv : v < n) (hlu : Labelled N (u : Int)) (hlv : Labelled N (v : Int))
    (hune : ent (u : Int) ≠ []) (hvne : ent (v : Int) ≠ []) (r : HubLRouter) :
    ∃ best, (∀ fuel, select fuel H N r u v = .ok (best, reset r)) ∧
      IsBest (rowStart (labelTable n ent) u : Int) (rowStart (labelTable n ent) v : Int)
        (hubs ent (u : Int)) (hubs ent (v : Int)) best := by
  have hsort : ∀ w : Int, ((hubs ent w).map Prod.fst).Pairwise (· < ·) := by
    intro w
    rw [hubs, List.map_map]
    exact hsorted w
  have hlen : ∀ w : Int, ((hubs ent w).length : Int) = (ent w).length := by
    intro w
    simp [hubs]
  obtain ⟨hu1, hu2⟩ := ha.offset hu
  obtain ⟨hv1, hv2⟩ := ha.offset hv
  have hupos := List.length_pos_iff.mpr hune
  have hvpos := List.length_pos_iff.mpr hvne
  obtain ⟨best, hmerge, hbest⟩ := mergeLoop_spec (ha.reads hu) (ha.reads hv) (hsort u) (hsort v)
  rw [hlen, hlen] at hmerge
  refine ⟨best, ?_, hbest⟩
  intro fuel
  have hhu := ha.nodeHasLabels (v := (u : Int)) (by omega) (by omega)
  have hhv := ha.nodeHasLabels (v := (v : Int)) (by omega) (by omega)
  simp only [select, hhu, hhv, ok_bind, hlu, hlv, decide_true, Bool.and_self, if_true,
    select2Lbl, hu1, hu2, hv1, hv2, hmerge]
  rw [if_neg (by omega)]
  rfl

/-- The temporary labels of a node, ready for the merge. -/
theorem temp_side (hd : CutData G n H N ups ent) {heap labelHeap : DistanceHeap}
    {M₀ L₀ : Int → Option Int} {t : TempLabels} {x : Int} (hx0 : 0 ≤ x) (hx1 : x < n)
    (hx : ¬ Labelled N x) (hheap : heap.Holds M₀) (hlabelHeap : labelHeap.Holds L₀)
    (ht : t.Cleared) :
    ∃ F heap' labelHeap' t' label l,
      (∀ fuel, F ≤ fuel →
        calcTempLabels fuel H N heap labelHeap t x = .ok (heap', labelHeap', t')) ∧
      heap'.Holds (fun _ => none) ∧ labelHeap'.Holds (fun _ => none) ∧
      t'.label.insertTail MAX_VALUE = .ok label ∧ t'.label.size = l.length ∧ 0 < l.length ∧
      Reads (tempSide { t' with label := label }) 0 l ∧
      SideAt H N ups n ent { t' with label := label } x l 0 := by
  obtain ⟨F, heap', labelHeap', t', T₁, T, ps, hrun, hh', hlh', ⟨xs, ht'⟩, hc⟩ :=
    calcTempLabels_spec hd hx0 hx1 hx hheap hlabelHeap ht
  obtain ⟨label, hlabel, hsealed⟩ := exists_sealed ht'
  have hside : SideAt H N ups n ent { t' with label := label } x (tempHubs T xs) 0 :=
    SideAt.temp hx hc hsealed
  have hpos : 0 < (tempHubs T xs).length := by
    obtain ⟨a, _, ha⟩ := (hside.sideLabels hd hx0 hx1).stored x 0 (Walk.nil x)
    exact List.length_pos_of_mem ha
  refine ⟨F, heap', labelHeap', t', label, tempHubs T xs, hrun, hh', hlh', hlabel, ?_, hpos,
    hsealed.reads, hside⟩
  rw [OrderedIntSet.size_eq ht'.label, tempHubs, List.length_map]

/-- The selection of a request.  It never fails, and the selected distance is the
one between the two nodes. -/
theorem select_spec (hd : CutData G n H N ups ent) {s t : Int} (hs : 0 ≤ s ∧ s < n)
    (ht : 0 ≤ t ∧ t < n) {r : HubLRouter} (hr : Usable r) :
    ∃ F best r' la lb offA offB,
      (∀ fuel, F ≤ fuel → select fuel H N r s t = .ok (best, r')) ∧ Stacks r' [] [] [] ∧
      SideAt H N ups n ent r'.left s la offA ∧ SideAt H N ups n ent r'.right t lb offB ∧
      Selects G N s t la lb offA offB best := by
  have hhs := hd.nodeHasLabels hs.1 hs.2
  have hht := hd.nodeHasLabels ht.1 ht.2
  obtain ⟨u, rfl⟩ : ∃ u : Nat, s = u := ⟨s.toNat, by omega⟩
  obtain ⟨v, rfl⟩ : ∃ v : Nat, t = v := ⟨t.toNat, by omega⟩
  obtain ⟨M, hM⟩ := hr.heap
  obtain ⟨L, hL⟩ := hr.labelHeap
  have hstacks := hr.empty
  by_cases hlu : Labelled N (u : Int)
  · obtain ⟨hu, hu', hupos⟩ := labels_offset hd (u := u) (by omega) hlu
    have hreadU := hd.arrays.reads (v := u) (by omega)
    by_cases hlv : Labelled N (v : Int)
    · obtain ⟨e, he⟩ := hd.self_label hs.1 hs.2 hlu
      obtain ⟨e', he'⟩ := hd.self_label ht.1 ht.2 hlv
      obtain ⟨best, hrun, hbest⟩ := select_labelled (H := H) hd.arrays hd.sorted (u := u) (v := v)
        (by omega) (by omega) hlu hlv (List.ne_nil_of_mem he) (List.ne_nil_of_mem he') r
      refine ⟨0, best, reset r, _, _, _, _, fun fuel _ => hrun fuel, hstacks, SideAt.stored hlu,
        SideAt.stored hlv, ?_⟩
      apply IsBest.selects hd hs ht (sideLabels_hubs hd hs.1 hs.2 hlu)
        (sideLabels_hubs hd ht.1 ht.2 hlv)
      rw [if_neg (fun hc => hc.1 hlu)]
      exact hbest
    · obtain ⟨F, heap', labelHeap', t', label, lb, hrun, _, _, hlabel, hsize, hpos, hread, hside⟩ :=
        temp_side hd ht.1 ht.2 hlv (DistanceHeap.reset_holds hM) hL hr.right
      obtain ⟨best, hmerge, hbest⟩ := mergeLoop_spec hreadU hread
        (sideLabels_hubs hd hs.1 hs.2 hlu).sorted (hside.sideLabels hd ht.1 ht.2).sorted
      rw [zero_add] at hmerge
      refine ⟨F, best, { reset r with
          heap := heap', labelHeap := labelHeap', right := { t' with label := label } }, _, lb, _,
        0, ?_, ⟨hstacks.left_, hstacks.right_, hstacks.calc_, hstacks.result_⟩, SideAt.stored hlu,
        hside, ?_⟩
      · intro fuel hfuel
        simp only [select, hhs, hht, ok_bind, hlu, hlv, decide_true, decide_false, Bool.and_false,
          Bool.not_true, Bool.not_false, Bool.and_true, Bool.false_eq_true, if_false, if_true,
          selectLeftLbl, reset, hrun fuel hfuel, hu, hu', hsize, hlabel, hmerge]
        rw [if_neg (by omega)]
        rfl
      · apply IsBest.selects hd hs ht (sideLabels_hubs hd hs.1 hs.2 hlu)
          (hside.sideLabels hd ht.1 ht.2)
        rw [if_neg (fun hc => hc.1 hlu)]
        exact hbest
  · obtain ⟨F, heap', labelHeap', t', label, la, hrun, hheap', hlabelHeap', hlabel, hsize, hpos,
      hread, hside⟩ := temp_side hd hs.1 hs.2 hlu (DistanceHeap.reset_holds hM) hL hr.left
    have hla := hside.sideLabels hd hs.1 hs.2
    by_cases hlv : Labelled N (v : Int)
    · obtain ⟨hv, hv', hvpos⟩ := labels_offset hd (u := v) (by omega) hlv
      obtain ⟨best, hmerge, hbest⟩ := mergeLoop_spec (hd.arrays.reads (v := v) (by omega)) hread
        (sideLabels_hubs hd ht.1 ht.2 hlv).sorted hla.sorted
      rw [zero_add] at hmerge
      refine ⟨F, best, { reset r with
          heap := heap', labelHeap := labelHeap', left := { t' with label := label } }, la, _, 0,
        _, ?_, ⟨hstacks.left_, hstacks.right_, hstacks.calc_, hstacks.result_⟩, hside,
        SideAt.stored hlv, ?_⟩
      · intro fuel hfuel
        simp only [select, hhs, hht, ok_bind, hlu, hlv, decide_true, decide_false, Bool.and_true,
          Bool.not_true, Bool.and_false, Bool.false_eq_true, if_false,
          selectRightLbl, reset, hrun fuel hfuel, hv, hv', hsize, hlabel, hmerge]
        rw [if_neg (by omega)]
        rfl
      · apply IsBest.selects hd hs ht hla (sideLabels_hubs hd ht.1 ht.2 hlv)
        rw [if_pos ⟨hlu, hlv⟩]
        exact hbest.swap
    · obtain ⟨F', heap'', labelHeap'', t'', label', lb, hrun', _, _, hlabel', hsize', hpos', hread',
        hside'⟩ := temp_side hd ht.1 ht.2 hlv hheap' hlabelHeap' hr.right
      have hlb := hside'.sideLabels hd ht.1 ht.2
      obtain ⟨best, hmerge, hbest⟩ := mergeLoop_spec hread hread' hla.sorted hlb.sorted
      rw [zero_add, zero_add] at hmerge
      refine ⟨F + F', best, { reset r with
          heap := heap'', labelHeap := labelHeap'', left := { t' with label := label }
          right := { t'' with label := label' } }, la, lb, 0, 0, ?_,
        ⟨hstacks.left_, hstacks.right_, hstacks.calc_, hstacks.result_⟩, hside, hside', ?_⟩
      · intro fuel hfuel
        simp only [select, hhs, hht, ok_bind, hlu, hlv, decide_false, Bool.not_false, Bool.and_self,
          Bool.false_eq_true, if_false, if_true, select0Lbl, reset, hrun fuel (by omega),
          hrun' fuel (by omega), hsize, hsize', hlabel, hlabel', hmerge]
        rw [if_neg (by omega)]
        rfl
      · apply IsBest.selects hd hs ht hla hlb
        rw [if_neg (fun hc => hlv hc.2)]
        exact hbest

end HubLRouter

end SeaRouter
