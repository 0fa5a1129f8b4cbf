import SeaRouter.HubLabelCreation.Edges

/-!
# `hublablecreation/DynamicGrid.java`: the edges of the nodes

The grid keeps two lists of edge ids for each node: the current ones, from
which a contraction removes nodes, and all that were ever added.  A list is an
array and a count; the array doubles when it is full.  The array of a removed
node is `null` in the source and empty here: every access throws in both.

`Lists n alive ids counts L` says that the arrays hold the lists `L`.  The
lists of the nodes that are `alive` can grow.  `addEdge_spec`,
`removeBackwardsEdge_spec` and `removeNode_spec` describe the operations on
these lists; the last one needs that the node has as many edges to each of its
neighbours as the neighbour has back.
-/

namespace SeaRouter

open Java

/-- The static fields of `DynamicGrid`. -/
structure DynamicGrid where
  currentEdgeIds : List (List Int)
  currentEdgeCount : List Int
  allEdgeIds : List (List Int)
  allEdgeCount : List Int
deriving DecidableEq, Repr

namespace DynamicGrid

/-- `initializeEdges(edges, edgeCount)`: all edges are a copy of the current
ones. -/
def initializeEdges (edges : List (List Int)) (edgeCount : List Int) : DynamicGrid where
  currentEdgeIds := edges
  currentEdgeCount := edgeCount
  allEdgeIds := edges
  allEdgeCount := edgeCount

def getCurrentEdges (D : DynamicGrid) (nodeId : Int) : Run (List Int) := rd D.currentEdgeIds nodeId

def getCurrentEdgeCount (D : DynamicGrid) (nodeId : Int) : Run Int := rd D.currentEdgeCount nodeId

def getAllEdges (D : DynamicGrid) (nodeId : Int) : Run (List Int) := rd D.allEdgeIds nodeId

def getAllEdgeCount (D : DynamicGrid) (nodeId : Int) : Run Int := rd D.allEdgeCount nodeId

/-- `growCurrent` and `growAll`, if the array is full. -/
def growIfFull (edgeIds : List Int) (edgeCount : Int) : List Int :=
  if (edgeIds.length : Int) = edgeCount then growBy edgeIds edgeIds.length 0 else edgeIds

/-- The part of `addEdge` for one of the two lists. -/
def append (edgeIds : List (List Int)) (edgeCount : List Int) (nodeId edgeId : Int) :
    Run (List (List Int) × List Int) := do
  let count ← rd edgeCount nodeId
  let array := growIfFull (← rd edgeIds nodeId) count
  let array ← wr array count edgeId
  let edgeIds ← wr edgeIds nodeId array
  let edgeCount ← wr edgeCount nodeId (count + 1)
  return (edgeIds, edgeCount)

def addEdge (D : DynamicGrid) (nodeId edgeId : Int) : Run DynamicGrid := do
  let (currentEdgeIds, currentEdgeCount) ←
    append D.currentEdgeIds D.currentEdgeCount nodeId edgeId
  let (allEdgeIds, allEdgeCount) ← append D.allEdgeIds D.allEdgeCount nodeId edgeId
  return { currentEdgeIds, currentEdgeCount, allEdgeIds, allEdgeCount }

/-- The loop of `removeBackwardsEdge` over `left` more edges from index `i` on;
the answer is -1 when no edge leads to `startId`. -/
def findPosition (E : Edges) (startId : Int) (edgeIds : List Int) : Nat → Int → Run Int
  | 0, _ => return -1
  | left + 1, i => do
    let edgeId ← rd edgeIds i
    if (← E.getDest edgeId) = startId then return i
    else findPosition E startId edgeIds left (i + 1)

def removeBackwardsEdge (E : Edges) (D : DynamicGrid) (startId destId : Int) :
    Run DynamicGrid := do
  let count ← rd D.currentEdgeCount destId
  let edgeIds ← rd D.currentEdgeIds destId
  -- -1 so it crashes if an unexpected error occurs
  let position ← findPosition E startId edgeIds count.toNat 0
  let last ← rd edgeIds (count - 1)
  let edgeIds ← wr edgeIds position last
  let currentEdgeIds ← wr D.currentEdgeIds destId edgeIds
  let currentEdgeCount ← wr D.currentEdgeCount destId (count - 1)
  return { D with currentEdgeIds, currentEdgeCount }

/-- One iteration of the loop of `removeNode`. -/
def removeStep (E : Edges) (nodeId : Int) (state : DynamicGrid × Int) :
    Run (DynamicGrid × Int) := do
  let (D, i) := state
  let edgeIds ← rd D.currentEdgeIds nodeId
  let destId ← E.getDest (← rd edgeIds i)
  let D ← removeBackwardsEdge E D nodeId destId
  return (D, i + 1)

def removeNode (E : Edges) (D : DynamicGrid) (nodeId : Int) : Run DynamicGrid := do
  let count ← rd D.currentEdgeCount nodeId
  let (D, _) ← whileLoop
    (fun state => do return state.2 < (← rd state.1.currentEdgeCount nodeId))
    (removeStep E nodeId) count.toNat (D, 0)
  let currentEdgeCount ← wr D.currentEdgeCount nodeId 0
  let currentEdgeIds ← wr D.currentEdgeIds nodeId []
  return { D with currentEdgeIds, currentEdgeCount }

/-! ## The lists in the arrays -/

/-- The arrays hold the list `L u` for each node `u` below `n`. -/
structure Lists (n : Nat) (alive : Int → Prop) (ids : List (List Int)) (counts : List Int)
    (L : Int → List Int) : Prop where
  idsLength : ids.length = n
  countsLength : counts.length = n
  node : ∀ u : Int, 0 ≤ u → u < n → ∃ rest, rd ids u = .ok (L u ++ rest) ∧
    rd counts u = .ok ((L u).length : Int) ∧ (alive u → L u ++ rest ≠ [])

/-- The edges of the node `u` in one of the two lists. -/
def listOf (ids : List (List Int)) (counts : List Int) (u : Int) : List Int :=
  match rd ids u, rd counts u with
  | .ok row, .ok count => row.take count.toNat
  | _, _ => []

def current (D : DynamicGrid) : Int → List Int := listOf D.currentEdgeIds D.currentEdgeCount

def all (D : DynamicGrid) : Int → List Int := listOf D.allEdgeIds D.allEdgeCount

variable {n : Nat} {alive : Int → Prop} {ids : List (List Int)} {counts : List Int}
  {L : Int → List Int}

theorem Lists.listOf_eq (h : Lists n alive ids counts L) {u : Int} (h0 : 0 ≤ u) (h1 : u < n) :
    listOf ids counts u = L u := by
  obtain ⟨rest, hrow, hcount, _⟩ := h.node u h0 h1
  simp [listOf, hrow, hcount]

theorem Lists.listOf_outside (h : Lists n alive ids counts L) {u : Int}
    (hu : ¬ (0 ≤ u ∧ u < n)) : listOf ids counts u = [] := by
  cases hrow : rd ids u with
  | error e => simp [listOf, hrow]
  | ok row =>
    have := rd_bounds hrow
    rw [h.idsLength] at this
    exact absurd this hu

/-- Only the lists of the nodes matter. -/
theorem Lists.congr (h : Lists n alive ids counts L) {alive' : Int → Prop} {L' : Int → List Int}
    (hal : ∀ u, alive' u → alive u) (hL : ∀ u : Int, 0 ≤ u → u < n → L' u = L u) :
    Lists n alive' ids counts L' := by
  refine ⟨h.idsLength, h.countsLength, ?_⟩
  intro u h0 h1
  obtain ⟨rest, hrow, hcount, hne⟩ := h.node u h0 h1
  rw [hL u h0 h1]
  exact ⟨rest, hrow, hcount, fun ha => hne (hal u ha)⟩

/-- The arrays after the list of one node was replaced. -/
theorem Lists.update (h : Lists n alive ids counts L) {alive' : Int → Prop} {u : Int}
    (h0 : 0 ≤ u) (h1 : u < n) {l rest : List Int}
    (hrest : alive' u → l ++ rest ≠ []) (hal : ∀ x, x ≠ u → alive' x → alive x) :
    Lists n alive' (ids.set u.toNat (l ++ rest)) (counts.set u.toNat (l.length : Int))
      (fun x => if x = u then l else L x) := by
  refine ⟨by rw [List.length_set, h.idsLength], by rw [List.length_set, h.countsLength], ?_⟩
  intro x hx0 hx1
  rw [rd_set h0 (by rw [h.idsLength]; exact h1), rd_set h0 (by rw [h.countsLength]; exact h1)]
  by_cases hxu : x = u
  · rw [if_pos hxu, if_pos hxu, if_pos hxu]
    exact ⟨rest, rfl, rfl, fun ha => hrest (hxu ▸ ha)⟩
  · rw [if_neg hxu, if_neg hxu, if_neg hxu]
    obtain ⟨rest', h2, h3, h4⟩ := h.node x hx0 hx1
    exact ⟨rest', h2, h3, fun ha => h4 (hal x hxu ha)⟩

theorem append_spec (h : Lists n alive ids counts L) {u : Int} (h0 : 0 ≤ u) (h1 : u < n)
    (ha : alive u) (e : Int) :
    ∃ ids' counts', append ids counts u e = .ok (ids', counts') ∧
      Lists n alive ids' counts' (fun x => if x = u then L u ++ [e] else L x) := by
  obtain ⟨rest, hids, hcount, hne⟩ := h.node u h0 h1
  -- after `growIfFull` there is room behind the values
  obtain ⟨y, rest', hgrow⟩ : ∃ y rest',
      growIfFull (L u ++ rest) (L u).length = L u ++ y :: rest' := by
    unfold growIfFull
    split_ifs with hfull
    · have hr : rest = [] := by
        rw [List.length_append] at hfull
        exact List.eq_nil_of_length_eq_zero (by omega)
      have hpos : 0 < (L u).length := by
        have := hne ha
        rw [hr, List.append_nil] at this
        exact List.length_pos_iff.mpr this
      obtain ⟨k, hk⟩ : ∃ k, (L u).length = k + 1 := ⟨(L u).length - 1, by omega⟩
      refine ⟨0, List.replicate k 0, ?_⟩
      simp [growBy, hr, hk, List.replicate_succ]
    · cases rest with
      | nil => simp at hfull
      | cons y rest' => exact ⟨y, rest', rfl⟩
  have hwr : wr (L u ++ y :: rest') ((L u).length : Int) e = .ok ((L u ++ [e]) ++ rest') := by
    rw [wr_of_bounds _ (by omega) (by simp), Int.toNat_natCast]
    simp
  refine ⟨ids.set u.toNat ((L u ++ [e]) ++ rest'),
    counts.set u.toNat ((L u ++ [e]).length : Int), ?_,
    h.update h0 h1 (by simp) (fun x _ hx => hx)⟩
  unfold append
  simp only [hcount, hids, ok_bind, hgrow, hwr]
  rw [wr_of_bounds _ h0 (by rw [h.idsLength]; exact h1), ok_bind,
    wr_of_bounds _ h0 (by rw [h.countsLength]; exact h1), ok_bind]
  simp

theorem addEdge_spec {D : DynamicGrid} {alive' : Int → Prop} {A : Int → List Int}
    (hcur : Lists n alive D.currentEdgeIds D.currentEdgeCount L)
    (hall : Lists n alive' D.allEdgeIds D.allEdgeCount A) {u : Int} (h0 : 0 ≤ u) (h1 : u < n)
    (ha : alive u) (ha' : alive' u) (e : Int) :
    ∃ D', addEdge D u e = .ok D' ∧
      Lists n alive D'.currentEdgeIds D'.currentEdgeCount
        (fun x => if x = u then L u ++ [e] else L x) ∧
      Lists n alive' D'.allEdgeIds D'.allEdgeCount
        (fun x => if x = u then A u ++ [e] else A x) := by
  obtain ⟨ids, counts, happ, hl⟩ := append_spec hcur h0 h1 ha e
  obtain ⟨ids', counts', happ', hl'⟩ := append_spec hall h0 h1 ha' e
  refine ⟨⟨ids, counts, ids', counts'⟩, ?_, hl, hl'⟩
  unfold addEdge
  rw [happ, ok_bind, happ']
  rfl

/-! ## Removing edges -/

/-- The loop finds the first edge that leads to `startId`. -/
theorem findPosition_spec {E : Edges} {startId : Int} {pre : List Int} {e : Int}
    (post rest : List Int) (hpre : ∀ x ∈ pre, E.getDest x = .ok (E.destOf x) ∧ E.destOf x ≠ startId)
    (he : E.getDest e = .ok startId) :
    ∀ (done : List Int), findPosition E startId (done ++ (pre ++ e :: post) ++ rest)
      (pre ++ e :: post).length done.length = .ok ((done ++ pre).length : Int) := by
  induction pre with
  | nil =>
    intro done
    have hrd : rd (done ++ ([] ++ e :: post) ++ rest) (done.length : Int) = .ok e :=
      rd_of_getElem? (by simp)
    rw [List.nil_append, List.length_cons, findPosition, ← List.nil_append (e :: post), hrd,
      ok_bind, he, ok_bind, if_pos rfl, List.append_nil]
    rfl
  | cons x pre ih =>
    intro done
    obtain ⟨hx, hne⟩ := hpre x (List.mem_cons_self ..)
    have hrd : rd (done ++ (x :: pre ++ e :: post) ++ rest) (done.length : Int) = .ok x :=
      rd_of_getElem? (by simp)
    have ih' := ih (fun y hy => hpre y (List.mem_cons_of_mem x hy)) (done ++ [x])
    rw [List.cons_append, List.length_cons, findPosition, ← List.cons_append, hrd, ok_bind, hx,
      ok_bind, if_neg hne]
    simpa using ih'

/-- A list without its element at `pre.length`, into whose place the last one
moved. -/
theorem perm_swap_remove (pre post : List Int) (e : Int) :
    ∃ l' last, (pre ++ e :: post).getLast? = some last ∧
      (pre ++ e :: post).set pre.length last = l' ++ [last] ∧
      (e :: l').Perm (pre ++ e :: post) := by
  rcases List.eq_nil_or_concat post with rfl | ⟨post', last, rfl⟩
  · refine ⟨pre, e, by simp, by simp, ?_⟩
    exact (List.perm_append_singleton e pre).symm
  · rw [List.concat_eq_append]
    refine ⟨pre ++ last :: post', last, ?_, by simp, ?_⟩
    · rw [← List.cons_append, ← List.append_assoc, List.getLast?_concat]
    have h1 : (pre ++ e :: (post' ++ [last])).Perm (e :: (pre ++ (post' ++ [last]))) :=
      List.perm_middle
    refine List.Perm.trans ?_ h1.symm
    refine List.Perm.cons e ?_
    exact (List.perm_append_singleton last post').symm.append_left pre

/-- `removeBackwardsEdge` takes one edge that leads to `c` out of the list of
`x`. -/
theorem removeBackwardsEdge_spec {E : Edges} {D : DynamicGrid}
    (h : Lists n alive D.currentEdgeIds D.currentEdgeCount L) {c x : Int} (h0 : 0 ≤ x)
    (h1 : x < n) (hids : ∀ e ∈ L x, E.getDest e = .ok (E.destOf e))
    (hex : ∃ e ∈ L x, E.destOf e = c) :
    ∃ D' e l, removeBackwardsEdge E D c x = .ok D' ∧ E.destOf e = c ∧ (e :: l).Perm (L x) ∧
      D'.allEdgeIds = D.allEdgeIds ∧ D'.allEdgeCount = D.allEdgeCount ∧
      Lists n alive D'.currentEdgeIds D'.currentEdgeCount (fun y => if y = x then l else L y) := by
  obtain ⟨rest, hrow, hcount, hne⟩ := h.node x h0 h1
  -- the first edge to `c`
  obtain ⟨pre, e, post, hsplit, hec, hpre⟩ :
      ∃ pre e post, L x = pre ++ e :: post ∧ E.destOf e = c ∧ ∀ y ∈ pre, E.destOf y ≠ c := by
    obtain ⟨e, he, hec⟩ := hex
    have hfind : ((L x).find? fun y => E.destOf y = c).isSome := by
      rw [List.find?_isSome]
      exact ⟨e, he, by simpa using hec⟩
    obtain ⟨e', he'⟩ := Option.isSome_iff_exists.mp hfind
    obtain ⟨hp, pre, post, hs, hnot⟩ := List.find?_eq_some_iff_append.mp he'
    exact ⟨pre, e', post, hs, by simpa using hp, fun y hy => by simpa using hnot y hy⟩
  obtain ⟨l, last, hlast, hset, hperm⟩ := perm_swap_remove pre post e
  have hlen : (L x).length = l.length + 1 := by
    rw [hsplit, ← hperm.length_eq, List.length_cons]
  have hfind : findPosition E c (L x ++ rest) (L x).length 0 = .ok (pre.length : Int) := by
    have hdest : ∀ y ∈ pre, E.getDest y = .ok (E.destOf y) ∧ E.destOf y ≠ c := fun y hy =>
      ⟨hids y (by rw [hsplit]; exact List.mem_append_left _ hy), hpre y hy⟩
    have he : E.getDest e = .ok c := by
      rw [← hec]
      exact hids e (by rw [hsplit]; simp)
    have := findPosition_spec post rest hdest he []
    rw [hsplit]
    simpa using this
  have hrd : rd (L x ++ rest) (((L x).length : Int) - 1) = .ok last := by
    rw [rd_append_left (by omega), rd_eq_ok]
    refine ⟨by omega, ?_⟩
    rw [show (((L x).length : Int) - 1).toNat = (L x).length - 1 by omega, hsplit,
      ← List.getLast?_eq_getElem?]
    exact hlast
  have hpos : pre.length < (L x).length := by rw [hsplit]; simp
  have hwr : wr (L x ++ rest) (pre.length : Int) last = .ok (l ++ last :: rest) := by
    rw [wr_of_bounds _ (by omega) (by simp; omega), Int.toNat_natCast,
      List.set_append_left _ _ hpos, hsplit, hset]
    simp
  refine ⟨{ D with
      currentEdgeIds := D.currentEdgeIds.set x.toNat (l ++ last :: rest)
      currentEdgeCount := D.currentEdgeCount.set x.toNat (l.length : Int) }, e, l, ?_, hec,
    by rw [hsplit]; exact hperm, rfl, rfl, h.update h0 h1 (by simp) (fun _ _ hy => hy)⟩
  unfold removeBackwardsEdge
  simp only [hcount, hrow, ok_bind, Int.toNat_natCast, hfind, hrd, hwr]
  rw [wr_of_bounds _ h0 (by rw [h.idsLength]; exact h1), ok_bind,
    wr_of_bounds _ h0 (by rw [h.countsLength]; exact h1), ok_bind,
    show ((L x).length : Int) - 1 = l.length by omega]
  rfl

/-- What the loop of `removeNode` keeps: `L` are the lists before it, `pre` are
the edges of `c` that it handled, and each other node `x` has lost the edges
`R`, all of them to `c` and one for each edge of `pre` that leads to `x`. -/
structure Removing (n : Nat) (alive : Int → Prop) (E : Edges) (D₀ : DynamicGrid)
    (L : Int → List Int) (c : Int) (pre : List Int) (D : DynamicGrid) (L' : Int → List Int) :
    Prop where
  lists : Lists n alive D.currentEdgeIds D.currentEdgeCount L'
  own : L' c = L c
  allIds : D.allEdgeIds = D₀.allEdgeIds
  allCounts : D.allEdgeCount = D₀.allEdgeCount
  removed : ∀ x, x ≠ c → ∃ R, (R ++ L' x).Perm (L x) ∧ (∀ e ∈ R, E.destOf e = c) ∧
    (0 ≤ x ∧ x < n → R.length = pre.countP fun e => E.destOf e = x)

theorem countP_eq_length {p : Int → Bool} {R l l' : List Int} (h : (R ++ l').Perm l)
    (hR : ∀ e ∈ R, p e = true) : l.countP p = R.length + l'.countP p := by
  rw [← h.countP_eq, List.countP_append, List.countP_eq_length.mpr hR]

theorem removeStep_spec {E : Edges} {D₀ D : DynamicGrid} {L' : Int → List Int} {c e : Int}
    {pre post : List Int}
    (h : Removing n alive E D₀ L c pre D L') (hc0 : 0 ≤ c) (hc1 : c < n)
    (hids : ∀ x : Int, 0 ≤ x → x < n → ∀ e ∈ L x, E.getDest e = .ok (E.destOf e))
    (hsplit : L c = pre ++ e :: post)
    (hx0 : 0 ≤ E.destOf e) (hx1 : E.destOf e < n) (hxc : E.destOf e ≠ c)
    (hcount : (L (E.destOf e)).countP (fun y => E.destOf y = c)
      = (L c).countP fun y => E.destOf y = E.destOf e) :
    ∃ D' L'', removeStep E c (D, pre.length) = .ok (D', (pre ++ [e]).length) ∧
      Removing n alive E D₀ L c (pre ++ [e]) D' L'' := by
  obtain ⟨rest, hrow, hlen, _⟩ := h.lists.node c hc0 hc1
  rw [h.own] at hrow hlen
  have hrd : rd (L c ++ rest) (pre.length : Int) = .ok e := by
    rw [hsplit]
    exact rd_of_getElem? (by simp)
  have hedest : E.getDest e = .ok (E.destOf e) := hids c hc0 hc1 e (by rw [hsplit]; simp)
  obtain ⟨R, hperm, hR, hRlen⟩ := h.removed (E.destOf e) hxc
  have hlive : 0 < (L' (E.destOf e)).countP fun y => E.destOf y = c := by
    have h1 := countP_eq_length (p := fun y => decide (E.destOf y = c)) hperm
      (fun y hy => by simpa using hR y hy)
    rw [hcount, hRlen ⟨hx0, hx1⟩, hsplit, List.countP_append, List.countP_cons] at h1
    simp at h1
    omega
  have hex : ∃ y ∈ L' (E.destOf e), E.destOf y = c := by
    obtain ⟨y, hy, hyc⟩ := List.countP_pos_iff.mp hlive
    exact ⟨y, hy, by simpa using hyc⟩
  obtain ⟨D', e', l, hrun, hec, hl, hall, hall', hlists⟩ := removeBackwardsEdge_spec h.lists
    hx0 hx1 (fun y hy => hids _ hx0 hx1 y (hperm.mem_iff.mp (List.mem_append_right R hy))) hex
  refine ⟨D', _, ?_, hlists, ?_, hall.trans h.allIds, hall'.trans h.allCounts, ?_⟩
  · unfold removeStep
    simp only [hrow, ok_bind, hrd, hedest, hrun]
    simp
  · simp only [if_neg (Ne.symm hxc)]
    exact h.own
  · intro x hxc'
    by_cases hx : x = E.destOf e
    · subst hx
      refine ⟨R ++ [e'], ?_, ?_, fun hn => ?_⟩
      · simp only [if_pos]
        refine List.Perm.trans ?_ hperm
        rw [List.append_assoc]
        exact hl.append_left R
      · intro y hy
        rcases List.mem_append.mp hy with hy | hy
        · exact hR y hy
        · rw [List.mem_singleton.mp hy]
          exact hec
      · rw [List.length_append, hRlen hn, List.countP_append]
        simp
    · obtain ⟨R', hperm', hR', hlen'⟩ := h.removed x hxc'
      refine ⟨R', ?_, hR', fun hn => ?_⟩
      · simp only [if_neg hx]
        exact hperm'
      · rw [hlen' hn, List.countP_append]
        simp [Ne.symm hx]

/-- `removeNode` empties the list of `c` and takes every edge to `c` out of the
other lists. -/
theorem removeNode_spec {E : Edges} {D : DynamicGrid}
    (h : Lists n alive D.currentEdgeIds D.currentEdgeCount L) {c : Int} (hc0 : 0 ≤ c)
    (hc1 : c < n) (hids : ∀ x : Int, 0 ≤ x → x < n → ∀ e ∈ L x, E.getDest e = .ok (E.destOf e))
    (hdest : ∀ e ∈ L c, 0 ≤ E.destOf e ∧ E.destOf e < n ∧ E.destOf e ≠ c)
    (hcount : ∀ x : Int, 0 ≤ x → x < n →
      (L x).countP (fun e => E.destOf e = c) = (L c).countP fun e => E.destOf e = x) :
    ∃ D' L', removeNode E D c = .ok D' ∧ D'.allEdgeIds = D.allEdgeIds ∧
      D'.allEdgeCount = D.allEdgeCount ∧
      Lists n (fun x => alive x ∧ x ≠ c) D'.currentEdgeIds D'.currentEdgeCount L' ∧
      L' c = [] ∧ ∀ x : Int, 0 ≤ x → x < n → x ≠ c →
        (L' x).Perm ((L x).filter fun e => E.destOf e ≠ c) := by
  have hstep : ∀ st : DynamicGrid × Int,
      (∃ pre post L', L c = pre ++ post ∧ st.2 = pre.length ∧
        Removing n alive E D L c pre st.1 L') →
      (do return st.2 < (← rd st.1.currentEdgeCount c) : Run Bool) = .ok true →
      ∃ st', removeStep E c st = .ok st' ∧
        (∃ pre post L', L c = pre ++ post ∧ st'.2 = pre.length ∧
          Removing n alive E D L c pre st'.1 L') ∧
        (L c).length - st'.2.toNat < (L c).length - st.2.toNat := by
    rintro ⟨D', i⟩ ⟨pre, post, L', hsplit, hi, hrem⟩ hguard
    obtain ⟨rest, hrow, hlen, _⟩ := hrem.lists.node c hc0 hc1
    simp only at hi
    subst hi
    simp only [hlen, hrem.own, ok_bind, pure_eq_ok, Except.ok.injEq, decide_eq_true_eq] at hguard
    cases post with
    | nil =>
      rw [hsplit, List.append_nil] at hguard
      omega
    | cons e post =>
      obtain ⟨hx0, hx1, hxc⟩ := hdest e (by rw [hsplit]; simp)
      obtain ⟨D'', L'', hrun, hrem'⟩ := removeStep_spec hrem hc0 hc1 hids hsplit hx0 hx1 hxc
        (hcount _ hx0 hx1)
      refine ⟨_, hrun, ⟨pre ++ [e], post, L'', by rw [hsplit]; simp, rfl, hrem'⟩, ?_⟩
      simp only [List.length_append, List.length_singleton, Int.toNat_natCast]
      omega
  have hguardOk : ∀ st : DynamicGrid × Int,
      (∃ pre post L', L c = pre ++ post ∧ st.2 = pre.length ∧
        Removing n alive E D L c pre st.1 L') →
      ∃ b, (do return st.2 < (← rd st.1.currentEdgeCount c) : Run Bool) = .ok b := by
    rintro ⟨D', i⟩ ⟨pre, post, L', _, _, hrem⟩
    obtain ⟨rest, _, hlen, _⟩ := hrem.lists.node c hc0 hc1
    exact ⟨_, by simp only [hlen, ok_bind]; rfl⟩
  obtain ⟨rest, hrow, hlen, _⟩ := h.node c hc0 hc1
  obtain ⟨⟨D', i⟩, hrun, ⟨pre, post, L', hsplit, hi, hrem⟩, hguard⟩ := whileLoop_spec
    hguardOk hstep (L c).length (D, 0)
    ⟨[], L c, L, rfl, rfl, h, rfl, rfl, rfl, fun x _ => ⟨[], by simp, by simp, by simp⟩⟩
    (by simp)
  obtain ⟨rest', hrow', hlen', _⟩ := hrem.lists.node c hc0 hc1
  simp only at hi hrem
  have hend : L c = pre := by
    simp only [hlen', hrem.own, ok_bind, pure_eq_ok, Except.ok.injEq, hi,
      decide_eq_false_iff_not] at hguard
    have hpost : post = [] := by
      rw [hsplit, List.length_append] at hguard
      exact List.eq_nil_of_length_eq_zero (by omega)
    rw [hsplit, hpost, List.append_nil]
  refine ⟨{ D' with
      currentEdgeIds := D'.currentEdgeIds.set c.toNat ([] ++ [])
      currentEdgeCount := D'.currentEdgeCount.set c.toNat (([] : List Int).length : Int) },
    fun x => if x = c then [] else L' x, ?_, hrem.allIds, hrem.allCounts,
    hrem.lists.update hc0 hc1 (fun hx => absurd rfl hx.2) (fun x _ hx => hx.1), by simp, ?_⟩
  · unfold removeNode
    simp only [hlen, ok_bind, Int.toNat_natCast, hrun]
    rw [wr_of_bounds _ hc0 (by rw [hrem.lists.countsLength]; exact hc1), ok_bind,
      wr_of_bounds _ hc0 (by rw [hrem.lists.idsLength]; exact hc1), ok_bind]
    rfl
  · intro x hx0 hx1 hxc
    obtain ⟨R, hperm, hR, hRlen⟩ := hrem.removed x hxc
    have hnone : (L' x).countP (fun e => E.destOf e = c) = 0 := by
      have h1 := countP_eq_length (p := fun e => decide (E.destOf e = c)) hperm
        (fun e he => by simpa using hR e he)
      rw [hcount x hx0 hx1, hRlen ⟨hx0, hx1⟩, ← hend] at h1
      omega
    simp only [if_neg hxc]
    have hfilter := hperm.filter fun e => E.destOf e ≠ c
    rw [List.filter_append, List.filter_eq_nil_iff.mpr (by simpa using hR), List.nil_append,
      List.filter_eq_self.mpr (by simpa [List.countP_eq_zero] using hnone)] at hfilter
    exact hfilter

end DynamicGrid

end SeaRouter
