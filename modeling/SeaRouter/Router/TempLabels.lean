import SeaRouter.Router.CutData

/-!
# The search over the stored edges

A node without labels gets temporary ones.  The four lists of a side are a
table, `TempLabels.Holds`, from nodes to entries: a distance, the last edge and
where it came from.  The first loop of `calcTempLabels` searches over the stored
edges; the nodes with labels are collected and not searched from.

* `relaxEdge_spec` is one edge.
* `Exploring` is the invariant of the loop.  A node may be taken from the heap
  more than once, so nothing is said of the order in which that happens.  The
  loop ends since edges lead to higher levels.
* `explore_spec` is the whole loop: `Explored` says that the table has the nodes
  that the stored edges lead to, with their distances over such edges.
-/

namespace SeaRouter

open Java WGraph

/-- What the temporary labels hold for a node. -/
structure TempLabels.Entry where
  dist : Int
  edge : Int
  addInfo : Int
deriving DecidableEq, Repr

namespace TempLabels

/-! ## The table -/

/-- One column of a table. -/
def column (p : Entry → Int) (T : Int → Option Entry) (x : Int) : Int := ((T x).map p).getD 0

/-- The four lists hold the finite map `T` from nodes to entries; `xs` are its
nodes, in order. -/
structure Table (t : TempLabels) (T : Int → Option Entry) (xs : List Int) : Prop where
  ordered : t.label.orderedBySorting = true
  label : t.label.Holds xs
  dist : t.dist.Holds (xs.map (column Entry.dist T))
  edge : t.edge.Holds (xs.map (column Entry.edge T))
  addInfo : t.addInfo.Holds (xs.map (column Entry.addInfo T))
  sorted : xs.Pairwise (· < ·)
  small : ∀ x ∈ xs, x < MAX_VALUE
  mem : ∀ x, x ∈ xs ↔ (T x).isSome

/-- The four lists hold the finite map `T`. -/
def Holds (t : TempLabels) (T : Int → Option Entry) : Prop := ∃ xs, Table t T xs

/-- The map with one more entry, or another one. -/
def put (T : Int → Option Entry) (x : Int) (en : Entry) : Int → Option Entry :=
  fun y => if y = x then some en else T y

variable {t : TempLabels} {T : Int → Option Entry} {xs : List Int}

theorem column_put_insert (p : Entry → Int) {x : Int} (en : Entry) (hx : x ∉ xs) (i : Nat) :
    (xs.insertIdx i x).map (column p (put T x en)) = (xs.map (column p T)).insertIdx i (p en) := by
  have hmap : xs.map (column p (put T x en)) = xs.map (column p T) := by
    apply List.map_congr_left
    intro y hy
    have hne : y ≠ x := fun h => hx (h ▸ hy)
    simp [column, put, hne]
  rw [List.map_insertIdx, hmap]
  simp [column, put]

theorem column_put_set (p : Entry → Int) {x : Int} (en : Entry) (hs : xs.Pairwise (· < ·))
    (hx : x ∈ xs) :
    xs.map (column p (put T x en)) = (xs.map (column p T)).set (rank xs x) (p en) := by
  have hrank := getElem?_rank hs hx
  apply List.ext_getElem?
  intro i
  rw [List.getElem?_set, List.getElem?_map, List.getElem?_map, List.length_map]
  by_cases hi : rank xs x = i
  · subst hi
    rw [if_pos rfl, if_pos (rank_lt_length hs hx), hrank]
    simp [column, put]
  · rw [if_neg hi]
    cases hget : xs[i]? with
    | none => rfl
    | some y =>
      have hne : y ≠ x := by
        rintro rfl
        obtain ⟨h1, h1'⟩ := List.getElem?_eq_some_iff.mp hget
        obtain ⟨h2, h2'⟩ := List.getElem?_eq_some_iff.mp hrank
        exact hi ((nodup_of_sorted hs).getElem_inj_iff.mp (h2'.trans h1'.symm))
      simp [column, put, hne]

/-- The index of a node that the table has, and the entry there. -/
theorem Holds.present (h : Holds t T) {x : Int} {en : Entry} (hx : T x = some en) :
    ∃ idx : Int, t.label.getIdx x = .ok idx ∧ 0 ≤ idx ∧ t.dist.get idx = .ok en.dist ∧
      t.edge.get idx = .ok en.edge ∧ t.addInfo.get idx = .ok en.addInfo ∧
      ∀ en' : Entry, ∃ t', t.updateValue en'.dist en'.edge en'.addInfo idx = .ok t' ∧
        Holds t' (put T x en') := by
  obtain ⟨xs, h⟩ := h
  have hmem : x ∈ xs := (h.mem x).mpr (by rw [hx]; rfl)
  have hlt := rank_lt_length h.sorted hmem
  have hget := getElem?_rank h.sorted hmem
  have hcol : ∀ p : Entry → Int, (xs.map (column p T))[rank xs x]? = some (p en) := by
    intro p
    rw [List.getElem?_map, hget]
    simp [column, hx]
  have hidx := OrderedIntSet.getIdx_spec h.ordered (l := []) (by rw [List.append_nil]; exact h.label)
    (by simp) h.sorted h.small (h.small x hmem)
  rw [encodeRank, if_pos hmem] at hidx
  refine ⟨(rank xs x : Int), hidx, by omega, OrderedIntSet.get_spec h.dist (hcol _),
    OrderedIntSet.get_spec h.edge (hcol _), OrderedIntSet.get_spec h.addInfo (hcol _), ?_⟩
  intro en'
  have hlen : ∀ p : Entry → Int, rank xs x < (xs.map (column p T)).length := by
    intro p
    rw [List.length_map]
    exact hlt
  obtain ⟨s₁, h₁, _, hs₁⟩ := OrderedIntSet.updateValue_spec h.dist (hlen _) en'.dist
  obtain ⟨s₂, h₂, _, hs₂⟩ := OrderedIntSet.updateValue_spec h.edge (hlen _) en'.edge
  obtain ⟨s₃, h₃, _, hs₃⟩ := OrderedIntSet.updateValue_spec h.addInfo (hlen _) en'.addInfo
  refine ⟨{ t with dist := s₁, edge := s₂, addInfo := s₃ }, ?_, xs, h.ordered, h.label, ?_, ?_, ?_,
    h.sorted, h.small, ?_⟩
  · simp only [updateValue, h₁, h₂, h₃, ok_bind, pure_eq_ok]
  · rw [column_put_set Entry.dist en' h.sorted hmem]
    exact hs₁
  · rw [column_put_set Entry.edge en' h.sorted hmem]
    exact hs₂
  · rw [column_put_set Entry.addInfo en' h.sorted hmem]
    exact hs₃
  · intro y
    rw [h.mem y, put]
    split_ifs with hyx
    · rw [hyx, hx]
      simp
    · rfl

/-- Where a node that the table does not have is inserted. -/
theorem Holds.absent (h : Holds t T) {x : Int} (hx : T x = none) (hmax : x < MAX_VALUE) :
    ∃ idx : Int, t.label.getIdx x = .ok idx ∧ idx < 0 ∧
      ∀ en : Entry, ∃ t', t.insertAtIdx x en.dist en.edge en.addInfo ((idx + 1) * (-1)) = .ok t' ∧
        Holds t' (put T x en) := by
  obtain ⟨xs, h⟩ := h
  have hnot : x ∉ xs := by
    rw [h.mem x, hx]
    simp
  have hle := rank_le_length xs x
  have hidx := OrderedIntSet.getIdx_spec h.ordered (l := []) (by rw [List.append_nil]; exact h.label)
    (by simp) h.sorted h.small hmax
  have henc : encodeRank xs x < 0 ∧ (encodeRank xs x + 1) * (-1) = (rank xs x : Int) := by
    rw [encodeRank, if_neg hnot]
    constructor
    · omega
    · ring
  refine ⟨_, hidx, henc.1, ?_⟩
  intro en
  have hlen : ∀ p : Entry → Int, rank xs x ≤ (xs.map (column p T)).length := by
    intro p
    rw [List.length_map]
    exact hle
  obtain ⟨s₀, h₀, hord, hs₀⟩ := OrderedIntSet.insertAtIdx_spec h.label hle x
  obtain ⟨s₁, h₁, _, hs₁⟩ := OrderedIntSet.insertAtIdx_spec h.dist (hlen _) en.dist
  obtain ⟨s₂, h₂, _, hs₂⟩ := OrderedIntSet.insertAtIdx_spec h.edge (hlen _) en.edge
  obtain ⟨s₃, h₃, _, hs₃⟩ := OrderedIntSet.insertAtIdx_spec h.addInfo (hlen _) en.addInfo
  refine ⟨⟨s₀, s₁, s₂, s₃⟩, ?_, xs.insertIdx (rank xs x) x, hord.trans h.ordered, hs₀, ?_, ?_, ?_,
    pairwise_insertIdx_rank h.sorted hnot, ?_, ?_⟩
  · simp only [insertAtIdx, henc.2, h₀, h₁, h₂, h₃, ok_bind, pure_eq_ok]
  · rw [column_put_insert Entry.dist en hnot]
    exact hs₁
  · rw [column_put_insert Entry.edge en hnot]
    exact hs₂
  · rw [column_put_insert Entry.addInfo en hnot]
    exact hs₃
  · intro y hy
    rcases mem_insertIdx_rank.mp hy with rfl | hy
    · exact hmax
    · exact h.small y hy
  · intro y
    rw [mem_insertIdx_rank, h.mem y, put]
    split_ifs with hyx
    · simp [hyx]
    · simp [hyx]

/-- The lists after `clear`. -/
structure Cleared (t : TempLabels) : Prop where
  ordered : t.label.orderedBySorting = true
  label : t.label.Holds []
  dist : t.dist.Holds []
  edge : t.edge.Holds []
  addInfo : t.addInfo.Holds []

theorem new_cleared : Cleared new :=
  ⟨rfl, OrderedIntSet.new_holds true 1000 (by omega), OrderedIntSet.new_holds false 1000 (by omega),
    OrderedIntSet.new_holds false 1000 (by omega), OrderedIntSet.new_holds false 1000 (by omega)⟩

theorem Cleared.clear (h : Cleared t) : Cleared t.clear :=
  ⟨h.ordered, OrderedIntSet.clear_holds h.label.increase,
    OrderedIntSet.clear_holds h.dist.increase, OrderedIntSet.clear_holds h.edge.increase,
    OrderedIntSet.clear_holds h.addInfo.increase⟩

/-- The first entry. -/
theorem Cleared.insertTail (h : Cleared t) {x : Int} (hmax : x < MAX_VALUE) (en : Entry) :
    ∃ t', t.insertTail x en.dist en.edge en.addInfo = .ok t' ∧
      Holds t' (put (fun _ => none) x en) := by
  obtain ⟨s₀, h₀, hord, hs₀⟩ := OrderedIntSet.insertTail_spec h.label x
  obtain ⟨s₁, h₁, _, hs₁⟩ := OrderedIntSet.insertTail_spec h.dist en.dist
  obtain ⟨s₂, h₂, _, hs₂⟩ := OrderedIntSet.insertTail_spec h.edge en.edge
  obtain ⟨s₃, h₃, _, hs₃⟩ := OrderedIntSet.insertTail_spec h.addInfo en.addInfo
  have hcol : ∀ p : Entry → Int,
      [x].map (column p (put (fun _ => none) x en)) = [] ++ [p en] := by
    intro p
    simp [column, put]
  refine ⟨⟨s₀, s₁, s₂, s₃⟩, ?_, [x], hord.trans h.ordered, hs₀, ?_, ?_, ?_,
    List.pairwise_singleton _ x, ?_, ?_⟩
  · simp only [TempLabels.insertTail, h₀, h₁, h₂, h₃, ok_bind, pure_eq_ok]
  · rw [hcol Entry.dist]
    exact hs₁
  · rw [hcol Entry.edge]
    exact hs₂
  · rw [hcol Entry.addInfo]
    exact hs₃
  · intro y hy
    rw [List.mem_singleton.mp hy]
    exact hmax
  · intro y
    rw [List.mem_singleton, put]
    split_ifs with hyx
    · simp [hyx]
    · simp [hyx]

theorem Holds.makeSpace (h : Holds t T) (k : Int) : Holds (t.makeSpace k) T := by
  obtain ⟨xs, h⟩ := h
  obtain ⟨hord, hlabel⟩ := OrderedIntSet.makeSpace_holds h.label k
  exact ⟨xs, hord.trans h.ordered, hlabel, (OrderedIntSet.makeSpace_holds h.dist k).2,
    (OrderedIntSet.makeSpace_holds h.edge k).2, (OrderedIntSet.makeSpace_holds h.addInfo k).2,
    h.sorted, h.small, h.mem⟩

end TempLabels

namespace HubLRouter

open TempLabels

variable {G : Int → Int → Int → Prop} {n : Nat} {H : HubLEdges} {N : HubLNodes}
  {ups : Int → List Int} {ent : Int → List (Int × Int × Int)}

/-! ## One edge -/

/-- The state of the search: the table and the two heaps. -/
structure Represents (s : Search) (T : Int → Option Entry) (M L : Int → Option Int) : Prop where
  labels : s.labels.Holds T
  heap : s.heap.Holds M
  labelHeap : s.labelHeap.Holds L

/-- A heap with one more node, or a smaller distance of one. -/
def putDist (M : Int → Option Int) (x d : Int) : Int → Option Int :=
  fun y => if y = x then some d else M y

/-- The heap of the nodes without labels after a node was found. -/
def heapAfter (N : HubLNodes) (M : Int → Option Int) (v d : Int) : Int → Option Int :=
  if Labelled N v then M else putDist M v d

/-- The heap of the nodes with labels. -/
def labelHeapAfter (N : HubLNodes) (L : Int → Option Int) (v d : Int) : Int → Option Int :=
  if Labelled N v then putDist L v d else L

/-- The edge leads to a new node, or it is a shorter way to a known one. -/
def Better (T : Int → Option Entry) (v d : Int) : Prop := ∀ en, T v = some en → d < en.dist

variable {s : Search} {T : Int → Option Entry} {M L : Int → Option Int}

theorem relaxEdge_better (h : CutData G n H N ups ent) (hs : Represents s T M L) {u du i e v l : Int}
    (he : N.getEdge i = .ok e) (hv : H.getDest e = .ok v) (hl : H.getDist e = .ok l) (hv0 : 0 ≤ v)
    (hv1 : v < n) (hM : ∀ d, M v = some d → du + l ≤ d) (hL : ∀ d, L v = some d → du + l ≤ d)
    (hbetter : Better T v (du + l)) :
    ∃ s', relaxEdge H N u du s i = .ok s' ∧
      Represents s' (put T v ⟨du + l, e, u⟩) (heapAfter N M v (du + l))
        (labelHeapAfter N L v (du + l)) := by
  have hmax : v < MAX_VALUE := lt_of_lt_of_le hv1 h.small
  have hhas := h.nodeHasLabels hv0 hv1
  obtain ⟨heap', hadd, hheap'⟩ := DistanceHeap.add_spec hs.heap hmax hM
  obtain ⟨labelHeap', hadd', hlabelHeap'⟩ := DistanceHeap.add_spec hs.labelHeap hmax hL
  obtain ⟨w, rfl⟩ : ∃ w : Nat, v = w := ⟨v.toNat, by omega⟩
  obtain ⟨hoff, hoff'⟩ := h.arrays.offset (v := w) (by omega)
  cases hT : T (w : Int) with
  | none =>
    obtain ⟨idx, hidx, hneg, hinsert⟩ := hs.labels.absent hT hmax
    obtain ⟨t', ht', hholds⟩ := hinsert ⟨du + l, e, u⟩
    simp only at ht'
    by_cases hlab : Labelled N (w : Int)
    · refine ⟨{ s with
          labels := t', labelHeap := labelHeap'
          maxNumOfLabels := s.maxNumOfLabels + ((rowStart (labelTable n ent) w : Int) +
            (ent (w : Int)).length - (rowStart (labelTable n ent) w : Int)) }, ?_, hholds, ?_, ?_⟩
      · simp only [relaxEdge, he, hv, hl, hidx, ok_bind, if_pos hneg, hhas, hlab, decide_true,
          if_true, hadd', hoff, hoff', ht', pure_eq_ok]
      · rw [heapAfter, if_pos hlab]
        exact hs.heap
      · rw [labelHeapAfter, if_pos hlab]
        exact hlabelHeap'
    · refine ⟨{ s with labels := t', heap := heap' }, ?_, hholds, ?_, ?_⟩
      · simp only [relaxEdge, he, hv, hl, hidx, ok_bind, if_pos hneg, hhas, hlab, decide_false,
          Bool.false_eq_true, if_false, hadd, ht', pure_eq_ok]
      · rw [heapAfter, if_neg hlab]
        exact hheap'
      · rw [labelHeapAfter, if_neg hlab]
        exact hs.labelHeap
  | some en =>
    obtain ⟨idx, hidx, hnn, hdist, _, _, hupdate⟩ := hs.labels.present hT
    obtain ⟨t', ht', hholds⟩ := hupdate ⟨du + l, e, u⟩
    simp only at ht'
    have hlt := hbetter en hT
    by_cases hlab : Labelled N (w : Int)
    · refine ⟨{ s with labels := t', labelHeap := labelHeap' }, ?_, hholds, ?_, ?_⟩
      · simp [relaxEdge, he, hv, hl, hidx, not_lt.mpr hnn, hdist, hlt, hhas, hlab, hadd', ht']
      · rw [heapAfter, if_pos hlab]
        exact hs.heap
      · rw [labelHeapAfter, if_pos hlab]
        exact hlabelHeap'
    · refine ⟨{ s with labels := t', heap := heap' }, ?_, hholds, ?_, ?_⟩
      · simp [relaxEdge, he, hv, hl, hidx, not_lt.mpr hnn, hdist, hlt, hhas, hlab, hadd, ht']
      · rw [heapAfter, if_neg hlab]
        exact hheap'
      · rw [labelHeapAfter, if_neg hlab]
        exact hs.labelHeap

/-- An edge that is no shorter way changes nothing. -/
theorem relaxEdge_skip (hs : Represents s T M L) {u du i e v l : Int} {en : Entry}
    (he : N.getEdge i = .ok e) (hv : H.getDest e = .ok v) (hl : H.getDist e = .ok l)
    (hT : T v = some en) (hle : en.dist ≤ du + l) : relaxEdge H N u du s i = .ok s := by
  obtain ⟨idx, hidx, hnn, hdist, _⟩ := hs.labels.present hT
  simp [relaxEdge, he, hv, hl, hidx, not_lt.mpr hnn, hdist, not_lt.mpr hle]

/-! ## The loop over the nodes without labels -/

/-- The table during the search from `x`.  Of a node that is not in the heap `M`
all edges were relaxed, except those that are `todo`. -/
structure Exploring (H : HubLEdges) (N : HubLNodes) (ups : Int → List Int) (n : Nat) (x : Int)
    (T : Int → Option Entry) (M L : Int → Option Int) (todo : Int → Int → Prop) : Prop where
  start : T x = some ⟨0, -1, -1⟩
  node : ∀ v en, T v = some en → 0 ≤ v ∧ v < n
  reach : ∀ v en, T v = some en → Walk (Stored H N ups) x v en.dist
  tree : ∀ v en, T v = some en → v ≠ x → ∃ en' l, T en.addInfo = some en' ∧
    ¬ Labelled N en.addInfo ∧ en.edge ∈ ups en.addInfo ∧ H.getDest en.edge = .ok v ∧
    H.getDist en.edge = .ok l ∧ en'.dist + l ≤ en.dist
  closed : ∀ u en e v l, T u = some en → ¬ Labelled N u → M u = none → e ∈ ups u → ¬ todo u e →
    H.getDest e = .ok v → H.getDist e = .ok l → ∃ en', T v = some en' ∧ en'.dist ≤ en.dist + l
  heap : ∀ v d, M v = some d → ¬ Labelled N v ∧ ∃ en, T v = some en ∧ en.dist = d
  labels : ∀ v d, L v = some d ↔ Labelled N v ∧ ∃ en, T v = some en ∧ en.dist = d

variable {x : Int}

/-- A node is taken from the heap: all of its edges are to be relaxed. -/
theorem Exploring.pop (h : Exploring H N ups n x T M L fun _ _ => False) (u : Int) :
    Exploring H N ups n x T (fun y => if y = u then none else M y) L
      fun w e => w = u ∧ e ∈ ups u := by
  refine ⟨h.start, h.node, h.reach, h.tree, ?_, ?_, h.labels⟩
  · intro w en e v l hT hlab hM he htodo
    have hwu : w ≠ u := by
      rintro rfl
      exact htodo ⟨rfl, he⟩
    rw [if_neg hwu] at hM
    exact h.closed w en e v l hT hlab hM he id
  · intro v d hM
    split_ifs at hM
    exact h.heap v d hM

theorem put_self (v : Int) (en : Entry) : put T v en v = some en := if_pos rfl

theorem put_ne {v y : Int} (hy : y ≠ v) (en : Entry) : put T v en y = T y := if_neg hy

/-- Relaxing an edge makes no distance larger. -/
theorem put_le {v d : Int} (hbetter : Better T v d) (e u : Int) {y : Int} {en : Entry}
    (hy : T y = some en) : ∃ en₁, put T v ⟨d, e, u⟩ y = some en₁ ∧ en₁.dist ≤ en.dist := by
  by_cases hyv : y = v
  · subst hyv
    exact ⟨_, put_self y _, le_of_lt (hbetter en hy)⟩
  · exact ⟨en, by rw [put_ne hyv, hy], le_refl _⟩

/-- The heap after a node was found holds the distances of the new table. -/
theorem Exploring.heap_put {todo : Int → Int → Prop} (h : Exploring H N ups n x T M L todo)
    {v d : Int} (e u : Int) {y b : Int} (hM : heapAfter N M v d y = some b) :
    ¬ Labelled N y ∧ ∃ en, put T v ⟨d, e, u⟩ y = some en ∧ en.dist = b := by
  rw [heapAfter] at hM
  by_cases hyv : y = v
  · subst hyv
    rw [put_self]
    split_ifs at hM with hylab
    · exact absurd hylab (h.heap y b hM).1
    · rw [putDist, if_pos rfl, Option.some.injEq] at hM
      exact ⟨hylab, _, rfl, hM⟩
  · rw [put_ne hyv]
    split_ifs at hM with hylab
    · exact h.heap y b hM
    · rw [putDist, if_neg hyv] at hM
      exact h.heap y b hM

/-- So does the heap of the nodes with labels. -/
theorem Exploring.labels_put {todo : Int → Int → Prop} (h : Exploring H N ups n x T M L todo)
    (v d e u y b : Int) : labelHeapAfter N L v d y = some b ↔
      Labelled N y ∧ ∃ en, put T v ⟨d, e, u⟩ y = some en ∧ en.dist = b := by
  rw [labelHeapAfter]
  by_cases hyv : y = v
  · subst hyv
    rw [put_self]
    split_ifs with hylab
    · rw [putDist, if_pos rfl, Option.some.injEq]
      simp [hylab]
    · rw [h.labels y b]
      simp [hylab]
  · rw [put_ne hyv]
    split_ifs with hylab
    · rw [putDist, if_neg hyv]
      exact h.labels y b
    · exact h.labels y b

/-- A node that is not in the heap after `v` was found is another one, and was not in the heap. -/
theorem heapAfter_none {v d w : Int} (hwlab : ¬ Labelled N w) (hM : heapAfter N M v d w = none) :
    w ≠ v ∧ M w = none := by
  have hwv : w ≠ v := by
    intro hw
    subst hw
    rw [heapAfter, if_neg hwlab, putDist, if_pos rfl] at hM
    simp at hM
  refine ⟨hwv, ?_⟩
  rw [heapAfter] at hM
  split_ifs at hM
  · exact hM
  · rwa [putDist, if_neg hwv] at hM

/-- After the edge `e` of `u` was relaxed it is no longer to be done. -/
theorem Exploring.closed_put {u e v l : Int} {post : List Int} {en : Entry}
    (h : Exploring H N ups n x T M L fun w e' => w = u ∧ e' ∈ e :: post) (hu : T u = some en)
    (hv : H.getDest e = .ok v) (hl : H.getDist e = .ok l) (hbetter : Better T v (en.dist + l))
    {w e' v' l' : Int} {en' : Entry} (hw : put T v ⟨en.dist + l, e, u⟩ w = some en')
    (hwlab : ¬ Labelled N w) (hM : heapAfter N M v (en.dist + l) w = none) (he' : e' ∈ ups w)
    (htodo : ¬ (w = u ∧ e' ∈ post)) (hv' : H.getDest e' = .ok v') (hl' : H.getDist e' = .ok l') :
    ∃ en₁, put T v ⟨en.dist + l, e, u⟩ v' = some en₁ ∧ en₁.dist ≤ en'.dist + l' := by
  obtain ⟨hwv, hM'⟩ := heapAfter_none hwlab hM
  rw [put_ne hwv] at hw
  by_cases hcur : w = u ∧ e' ∈ e :: post
  · obtain ⟨rfl, hmem⟩ := hcur
    have he'e : e' = e := by
      rcases List.mem_cons.mp hmem with heq | hpost
      · exact heq
      · exact absurd ⟨rfl, hpost⟩ htodo
    subst he'e
    rw [hu, Option.some.injEq] at hw
    rw [hv, Except.ok.injEq] at hv'
    rw [hl, Except.ok.injEq] at hl'
    rw [← hv', ← hw, ← hl']
    exact ⟨_, put_self v _, le_refl _⟩
  · obtain ⟨en₀, hen₀, hle₀⟩ := h.closed w en' e' v' l' hw hwlab hM' he' hcur hv' hl'
    obtain ⟨en₁, hen₁, hle₁⟩ := put_le hbetter e u hen₀
    exact ⟨en₁, hen₁, by omega⟩

/-- An edge of the taken node that is a shorter way. -/
theorem Exploring.improve (hd : CutData G n H N ups ent) {u e v l : Int} {post : List Int}
    {en : Entry} (h : Exploring H N ups n x T M L fun w e' => w = u ∧ e' ∈ e :: post)
    (hu : T u = some en) (hlab : ¬ Labelled N u) (he : e ∈ ups u) (hv : H.getDest e = .ok v)
    (hl : H.getDist e = .ok l) (hbetter : Better T v (en.dist + l)) :
    v ≠ u ∧ Exploring H N ups n x (put T v ⟨en.dist + l, e, u⟩) (heapAfter N M v (en.dist + l))
      (labelHeapAfter N L v (en.dist + l)) fun w e' => w = u ∧ e' ∈ post := by
  have hstored : Stored H N ups u v l := ⟨hlab, e, he, hv, hl⟩
  obtain ⟨_, hlevel, hv0, hv1⟩ := hd.stored hstored
  have hreach := (h.reach u en hu).snoc hstored
  have hup := hd.stored_level (h.reach u en hu)
  have hvu : v ≠ u := by
    intro heq
    subst heq
    omega
  have hvx : v ≠ x := by
    intro heq
    subst heq
    omega
  refine ⟨hvu, ?_, ?_, ?_, ?_, ?_, ?_, ?_⟩
  · rw [put_ne hvx.symm]
    exact h.start
  · intro y en' hy
    by_cases hyv : y = v
    · rw [hyv]
      exact ⟨hv0, hv1⟩
    · rw [put_ne hyv] at hy
      exact h.node y en' hy
  · intro y en' hy
    by_cases hyv : y = v
    · rw [hyv, put_self, Option.some.injEq] at hy
      rw [hyv, ← hy]
      exact hreach
    · rw [put_ne hyv] at hy
      exact h.reach y en' hy
  · intro y en' hy hyx
    by_cases hyv : y = v
    · rw [hyv, put_self, Option.some.injEq] at hy
      rw [hyv, ← hy]
      exact ⟨en, l, by rw [put_ne hvu.symm]; exact hu, hlab, he, hv, hl, le_refl _⟩
    · rw [put_ne hyv] at hy
      obtain ⟨en₀, l₀, hprev, hplab, hpe, hpv, hpl, hpd⟩ := h.tree y en' hy hyx
      obtain ⟨en₁, hen₁, hle₁⟩ := put_le hbetter e u hprev
      exact ⟨en₁, l₀, hen₁, hplab, hpe, hpv, hpl, by omega⟩
  · intro w en' e' v' l' hw hwlab hM he' htodo hv' hl'
    exact h.closed_put hu hv hl hbetter hw hwlab hM he' htodo hv' hl'
  · intro y d hM
    exact h.heap_put e u hM
  · intro y d
    exact h.labels_put v (en.dist + l) e u y d

/-- An edge of the taken node that is no shorter way. -/
theorem Exploring.skip {u e v l : Int} {post : List Int} {en en₁ : Entry}
    (h : Exploring H N ups n x T M L fun w e' => w = u ∧ e' ∈ e :: post)
    (hu : T u = some en) (hv : H.getDest e = .ok v)
    (hl : H.getDist e = .ok l) (hT : T v = some en₁) (hle : en₁.dist ≤ en.dist + l) :
    Exploring H N ups n x T M L fun w e' => w = u ∧ e' ∈ post := by
  refine ⟨h.start, h.node, h.reach, h.tree, ?_, h.heap, h.labels⟩
  intro w en' e' v' l' hw hwlab hM he' htodo hv' hl'
  by_cases hcur : w = u ∧ e' ∈ e :: post
  · obtain ⟨rfl, hmem⟩ := hcur
    have he'e : e' = e := by
      rcases List.mem_cons.mp hmem with heq | hpost
      · exact heq
      · exact absurd ⟨rfl, hpost⟩ htodo
    subst he'e
    rw [hu, Option.some.injEq] at hw
    rw [hv, Except.ok.injEq] at hv'
    rw [hl, Except.ok.injEq] at hl'
    rw [← hv', ← hw, ← hl']
    exact ⟨en₁, hT, hle⟩
  · exact h.closed w en' e' v' l' hw hwlab hM he' hcur hv' hl'

/-- The state while the edges of `u` are relaxed, of which `pre` are done. -/
structure Relaxing (H : HubLEdges) (N : HubLNodes) (ups : Int → List Int) (n : Nat) (x u : Int)
    (en : Entry) (M₀ : Int → Option Int) (pre : List Int) (s : Search)
    (T : Int → Option Entry) (M L : Int → Option Int) : Prop where
  represents : Represents s T M L
  exploring : ∀ post, ups u = pre ++ post →
    Exploring H N ups n x T M L fun w e => w = u ∧ e ∈ post
  taken : T u = some en
  grown : ∀ w, (M w).isSome → (M₀ w).isSome ∨ levelOf N u < levelOf N w

theorem relaxEdge_spec (hd : CutData G n H N ups ent) {u i e : Int} {en : Entry}
    {M₀ : Int → Option Int} {pre post : List Int} (hlab : ¬ Labelled N u)
    (hups : ups u = pre ++ e :: post) (he : N.getEdge i = .ok e)
    (h : Relaxing H N ups n x u en M₀ pre s T M L) :
    ∃ s' T' M' L', relaxEdge H N u en.dist s i = .ok s' ∧
      Relaxing H N ups n x u en M₀ (pre ++ [e]) s' T' M' L' := by
  have hmem : e ∈ ups u := by
    rw [hups]
    simp
  obtain ⟨v, l, hv, hl, _, hlevel, hv0, hv1⟩ := hd.edge u e hlab hmem
  have hexp := h.exploring (e :: post) hups
  have hpost : ∀ post', ups u = pre ++ [e] ++ post' → post' = post := by
    intro post' heq
    rw [hups, List.append_assoc] at heq
    have := List.append_cancel_left heq
    simp only [List.singleton_append, List.cons.injEq, true_and] at this
    exact this.symm
  by_cases hbetter : Better T v (en.dist + l)
  · have hM : ∀ d, M v = some d → en.dist + l ≤ d := by
      intro d hM
      obtain ⟨_, en', hen', rfl⟩ := hexp.heap v d hM
      exact le_of_lt (hbetter en' hen')
    have hL : ∀ d, L v = some d → en.dist + l ≤ d := by
      intro d hL
      obtain ⟨_, en', hen', rfl⟩ := (hexp.labels v d).mp hL
      exact le_of_lt (hbetter en' hen')
    obtain ⟨s', hrun, hrep⟩ := relaxEdge_better hd h.represents (u := u) he hv hl hv0 hv1 hM hL
      hbetter
    obtain ⟨hvu, hexp'⟩ := hexp.improve hd h.taken hlab hmem hv hl hbetter
    refine ⟨s', _, _, _, hrun, hrep, ?_, ?_, ?_⟩
    · intro post' heq
      rw [hpost post' heq]
      exact hexp'
    · rw [put, if_neg hvu.symm]
      exact h.taken
    · intro w hw
      rw [heapAfter] at hw
      split_ifs at hw
      · exact h.grown w hw
      · rw [putDist] at hw
        split_ifs at hw with hwv
        · rw [hwv]
          exact Or.inr hlevel
        · exact h.grown w hw
  · simp only [Better, not_forall, not_lt] at hbetter
    obtain ⟨en₁, hT, hle⟩ := hbetter
    refine ⟨s, T, M, L, relaxEdge_skip h.represents he hv hl hT hle, h.represents, ?_, h.taken,
      h.grown⟩
    intro post' heq
    rw [hpost post' heq]
    exact hexp.skip h.taken hv hl hT hle

/-- One iteration: a node leaves the heap, and those that enter it are on higher
levels. -/
theorem expandNode_spec (hd : CutData G n H N ups ent) (hs : Represents s T M L)
    (hx : Exploring H N ups n x T M L fun _ _ => False) (hne : s.heap.isEmpty = false) :
    ∃ s' T' M' L' u, expandNode H N s = .ok s' ∧ Represents s' T' M' L' ∧
      Exploring H N ups n x T' M' L' (fun _ _ => False) ∧ (M u).isSome ∧ (0 ≤ u ∧ u < n) ∧
      ∀ w, (M' w).isSome → (M w).isSome ∧ w ≠ u ∨ levelOf N u < levelOf N w := by
  obtain ⟨u, d, heap', hnext, hM, _, hheap'⟩ := DistanceHeap.getNext_spec hs.heap hne
  obtain ⟨hlab, en, hen, rfl⟩ := hx.heap u d hM
  obtain ⟨hu0, hu1⟩ := hx.node u en hen
  obtain ⟨w, rfl⟩ : ∃ w : Nat, u = w := ⟨u.toNat, by omega⟩
  obtain ⟨hoff, hoff', hedge⟩ := hd.edges_offset (v := w) (by omega)
  obtain ⟨idx, hidx, _, hdist, _⟩ := hs.labels.present hen
  obtain ⟨s', hfold, T', M', L', h'⟩ := foldlM_row (l := ups (w : Int))
    (f := relaxEdge H N w en.dist)
    (P := fun pre s => ∃ T' M' L', Relaxing H N ups n x w en
      (fun y => if y = (w : Int) then none else M y) pre s T' M' L')
    (rowStart (edgeTable n ups) w) (b := { s with heap := heap' })
    ⟨T, _, L, ⟨hs.labels, hheap', hs.labelHeap⟩, by
      intro post heq
      rw [List.nil_append] at heq
      rw [← heq]
      exact hx.pop w, hen, fun y hy => Or.inl hy⟩ (by
      intro pre e post s hups hP
      obtain ⟨T', M', L', hP⟩ := hP
      have he := hedge pre.length e (by rw [hups]; simp)
      obtain ⟨s', T'', M'', L'', hrun, hP'⟩ := relaxEdge_spec hd hlab hups he hP
      exact ⟨s', hrun, T'', M'', L'', hP'⟩)
  refine ⟨s', T', M', L', w, ?_, h'.represents, ?_, by rw [hM]; rfl, ⟨hu0, hu1⟩, ?_⟩
  · simp only [expandNode, hnext, ok_bind, hidx, hdist, hoff, hoff', hfold]
  · have := h'.exploring [] (by simp)
    simpa using this
  · intro y hy
    rcases h'.grown y hy with hold | hup
    · by_cases hyw : y = (w : Int)
      · rw [if_pos hyw] at hold
        simp at hold
      · rw [if_neg hyw] at hold
        exact Or.inl ⟨hold, hyw⟩
    · exact Or.inr hup

/-- The nodes of the heap. -/
def inHeap (n : Nat) (M : Int → Option Int) : Finset Nat :=
  (Finset.range n).filter fun v => (M (v : Int)).isSome

theorem inHeap_subset (n : Nat) (M : Int → Option Int) : inHeap n M ⊆ Finset.range n :=
  Finset.filter_subset _ _

/-- The table after the search: the nodes that stored edges lead to. -/
structure Explored (H : HubLEdges) (N : HubLNodes) (ups : Int → List Int) (n : Nat) (x : Int)
    (T : Int → Option Entry) (L : Int → Option Int) : Prop where
  start : T x = some ⟨0, -1, -1⟩
  node : ∀ v en, T v = some en → 0 ≤ v ∧ v < n
  dist : ∀ v en, T v = some en → IsDist (Stored H N ups) x v en.dist
  found : ∀ v a, Walk (Stored H N ups) x v a → ∃ en, T v = some en
  tree : ∀ v en, T v = some en → v ≠ x → ∃ en' l, T en.addInfo = some en' ∧
    ¬ Labelled N en.addInfo ∧ en.edge ∈ ups en.addInfo ∧ H.getDest en.edge = .ok v ∧
    H.getDist en.edge = .ok l ∧ en'.dist + l = en.dist
  labels : ∀ v d, L v = some d ↔ Labelled N v ∧ ∃ en, T v = some en ∧ en.dist = d

/-- When the heap is empty, no way over stored edges is shorter than the entry. -/
theorem Exploring.le_walk (h : Exploring H N ups n x T M L fun _ _ => False)
    (hM : ∀ v, M v = none) {u v a : Int} (hw : Walk (Stored H N ups) u v a) :
    ∀ en, T u = some en → ∃ en', T v = some en' ∧ en'.dist ≤ en.dist + a := by
  induction hw with
  | nil u =>
    intro en hen
    exact ⟨en, hen, by omega⟩
  | cons hs _ ih =>
    intro en hen
    obtain ⟨hlab, e, he, hv, hl⟩ := hs
    obtain ⟨en₁, hen₁, hle₁⟩ := h.closed _ en e _ _ hen hlab (hM _) he id hv hl
    obtain ⟨en₂, hen₂, hle₂⟩ := ih en₁ hen₁
    exact ⟨en₂, hen₂, by omega⟩

theorem Exploring.explored (h : Exploring H N ups n x T M L fun _ _ => False)
    (hM : ∀ v, M v = none) : Explored H N ups n x T L := by
  have hle : ∀ v a, Walk (Stored H N ups) x v a → ∃ en, T v = some en ∧ en.dist ≤ a := by
    intro v a hw
    obtain ⟨en, hen, hle⟩ := h.le_walk hM hw _ h.start
    exact ⟨en, hen, by simpa using hle⟩
  refine ⟨h.start, h.node, ?_, ?_, ?_, h.labels⟩
  · intro v en hen
    refine ⟨h.reach v en hen, ?_⟩
    intro a hw
    obtain ⟨en', hen', hle'⟩ := hle v a hw
    rw [hen, Option.some.injEq] at hen'
    rw [hen']
    exact hle'
  · intro v a hw
    obtain ⟨en, hen, _⟩ := hle v a hw
    exact ⟨en, hen⟩
  · intro v en hen hvx
    obtain ⟨en', l, hen', hlab, he, hv, hl, hsum⟩ := h.tree v en hen hvx
    obtain ⟨en₁, hen₁, hle₁⟩ := h.closed _ en' _ v l hen' hlab (hM _) he id hv hl
    rw [hen, Option.some.injEq] at hen₁
    subst hen₁
    exact ⟨en', l, hen', hlab, he, hv, hl, by omega⟩

/-- The loop over the nodes without labels. -/
theorem explore_spec (hd : CutData G n H N ups ent) (hs : Represents s T M L)
    (hx : Exploring H N ups n x T M L fun _ _ => False) :
    ∃ F s' T' L', (∀ fuel, F ≤ fuel → whileLoop (fun s : Search => return !s.heap.isEmpty)
        (expandNode H N) fuel s = .ok s') ∧
      Represents s' T' (fun _ => none) L' ∧ Explored H N ups n x T' L' := by
  obtain ⟨B, hB⟩ := CutData.exists_level_le N
  obtain ⟨s', k, hrun, ⟨T', M', L', hs', hx', _⟩, hend⟩ := whileLoop_bounded
    (c := fun s : Search => return !s.heap.isEmpty) (f := expandNode H N)
    (I := fun k s => ∃ T M L, Represents s T M L ∧
      Exploring H N ups n x T M L (fun _ _ => False) ∧
      ∑ v ∈ inHeap n M, (n + 1) ^ (B - levelOf N (v : Int)).toNat = k)
    (fun k s _ => ⟨_, rfl⟩) (by
      intro k s hI hguard
      obtain ⟨T, M, L, hs, hx, rfl⟩ := hI
      obtain ⟨s', T', M', L', u, hrun, hs', hx', hu, ⟨hu0, hu1⟩, hgrown⟩ :=
        expandNode_spec hd hs hx (by simpa using hguard)
      refine ⟨s', _, hrun, ⟨T', M', L', hs', hx', rfl⟩, ?_⟩
      obtain ⟨w, rfl⟩ : ∃ w : Nat, u = w := ⟨u.toNat, by omega⟩
      apply sum_pow_lt (inHeap_subset n M') (u := w)
      · rw [inHeap, Finset.mem_filter, Finset.mem_range]
        exact ⟨by omega, hu⟩
      · intro v hv
        rw [inHeap, Finset.mem_filter] at hv
        rcases hgrown (v : Int) hv.2 with ⟨hold, hne⟩ | hup
        · left
          rw [inHeap, Finset.mem_filter]
          exact ⟨⟨hv.1, hold⟩, by omega⟩
        · right
          have := hB (v : Int)
          omega)
    _ _ s ⟨T, M, L, hs, hx, rfl⟩ (le_refl _)
  have hempty : s'.heap.isEmpty = true := by simpa using hend
  have hM := (DistanceHeap.isEmpty_iff hs'.heap).mp hempty
  obtain rfl : M' = fun _ => none := funext hM
  exact ⟨_, s', T', L', fun fuel hfuel => whileLoop_mono hrun hfuel, hs', hx'.explored hM⟩

end HubLRouter

end SeaRouter
