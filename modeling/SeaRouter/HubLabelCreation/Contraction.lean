import SeaRouter.HubLabelCreation.LabelCreator
import SeaRouter.HubLabelCreation.WitnessSearch

/-!
# One level of the contraction

`Consistent` is what the fields of `LabelCreator` keep between two calls of
`calcNextLvl`: the lists of the grid are those of a symmetric graph on the
uncontracted nodes, and the set of pairs in `alreadyShortcut` is symmetric.

The four parts of `calcNextLvl` have one lemma each.  `selectNodes_spec` picks
nodes no two of which are neighbours; `searches_spec` collects what the threads
note for them; `addShortcuts_spec` adds each noted pair once, unless it is in
`alreadyShortcut`; `removeNodes_spec` removes the picked nodes.  `LevelStep`
sums up the four parts, and every result about whole runs is read off it.
-/

namespace SeaRouter

open Java WGraph

namespace LabelCreator

/-- The nodes that are not contracted yet. -/
def uncontracted (s : LabelCreator) : Finset Int :=
  ((Finset.range s.contracted.length).filter fun i => s.contracted[i]? = some false).image
    fun i : Nat => (i : Int)

theorem mem_uncontracted {s : LabelCreator} {u : Int} :
    u ∈ uncontracted s ↔ rd s.contracted u = .ok false := by
  rw [uncontracted, Finset.mem_image]
  constructor
  · rintro ⟨i, hi, rfl⟩
    exact rd_of_getElem? (Finset.mem_filter.mp hi).2
  · intro h
    obtain ⟨h0, h1⟩ := rd_eq_ok.mp h
    refine ⟨u.toNat, Finset.mem_filter.mpr ⟨?_, h1⟩, by omega⟩
    exact Finset.mem_range.mpr (List.getElem?_eq_some_iff.mp h1).1

/-- How many of the edges `l` lead to `w` and have the length `d`. -/
def countTo (E : Edges) (l : List Int) (w d : Int) : Nat :=
  l.countP fun e => E.destOf e = w ∧ E.distOf e = d

/-- What holds between two levels.  `K` are the pairs in `alreadyShortcut`. -/
structure Consistent (n : Nat) (s : LabelCreator) (K : Int → Int → Prop) : Prop where
  small : (n : Int) ≤ MAX_VALUE
  valid : s.edges.Valid
  current : DynamicGrid.Lists n (· ∈ uncontracted s) s.grid.currentEdgeIds s.grid.currentEdgeCount
    s.grid.current
  all : DynamicGrid.Lists n (fun _ => True) s.grid.allEdgeIds s.grid.allEdgeCount s.grid.all
  contractedLength : s.contracted.length = n
  levelsLength : s.levels.length = n
  markLength : s.isNeighbour.length = n
  knownLength : s.alreadyShortcut.length = n
  order : ∀ u : Int, u ∈ s.calcOrder ↔ 0 ≤ u ∧ u < n
  left : s.nonContractedNum = (uncontracted s).card
  edge : ∀ u, ∀ e ∈ s.grid.current u, u ∈ uncontracted s ∧ s.edges.IsId e ∧
    s.edges.startOf e = u ∧ s.edges.destOf e ∈ uncontracted s ∧ s.edges.destOf e ≠ u ∧
    0 ≤ s.edges.distOf e
  symm : ∀ u w d, countTo s.edges (s.grid.current u) w d = countTo s.edges (s.grid.current w) u d
  enough : ∀ u, s.grid.current u ≠ [] → 2 ≤ s.edges.numOfOriginalEdges
  known : ∀ u : Int, 0 ≤ u → u < n → ∃ set, rd s.alreadyShortcut u = .ok set ∧
    IntArraySet.Holds set (K u)
  known_symm : ∀ u w, K u w → K w u

variable {n : Nat} {s : LabelCreator} {K : Int → Int → Prop}

theorem Consistent.isNode (h : Consistent n s K) {u : Int} (hu : u ∈ uncontracted s) :
    0 ≤ u ∧ u < n := by
  have := rd_bounds (mem_uncontracted.mp hu)
  rwa [h.contractedLength] at this

theorem Consistent.searchGraph (h : Consistent n s K) :
    CHDijkstra.SearchGraph s.edges s.grid s.grid.current (uncontracted s) where
  lists := by
    intro u hu
    obtain ⟨h0, h1⟩ := h.isNode hu
    obtain ⟨rest, hrow, hcount, _⟩ := h.current.node u h0 h1
    exact ⟨rest, hrow, hcount⟩
  card := by
    rw [h.current.idsLength, ← h.contractedLength]
    calc (uncontracted s).card
        ≤ ((Finset.range s.contracted.length).filter _).card := Finset.card_image_le
      _ ≤ (Finset.range s.contracted.length).card := Finset.card_filter_le _ _
      _ = s.contracted.length := Finset.card_range _
  small := fun u hu => lt_of_lt_of_le (h.isNode hu).2 h.small
  outside := by
    intro u hu
    by_contra hne
    obtain ⟨e, he⟩ := List.exists_mem_of_ne_nil _ hne
    exact hu (h.edge u e he).1
  getDest := fun u e he => (h.valid.isEdge (h.edge u e he).2.1).dest
  getDist := fun u e he => (h.valid.isEdge (h.edge u e he).2.1).dist
  dest := fun u e he => ⟨(h.edge u e he).2.2.2.1, (h.edge u e he).2.2.2.2.1⟩
  nonneg := fun u e he => (h.edge u e he).2.2.2.2.2

/-- An edge has an edge of the same length back. -/
theorem Consistent.back (h : Consistent n s K) {u e : Int} (he : e ∈ s.grid.current u) :
    ∃ e' ∈ s.grid.current (s.edges.destOf e), s.edges.destOf e' = u ∧
      s.edges.distOf e' = s.edges.distOf e := by
  have hpos : 0 < countTo s.edges (s.grid.current u) (s.edges.destOf e) (s.edges.distOf e) :=
    List.countP_pos_iff.mpr ⟨e, he, by simp⟩
  rw [h.symm] at hpos
  obtain ⟨e', he', heq⟩ := List.countP_pos_iff.mp hpos
  exact ⟨e', he', by simpa using heq⟩

theorem Consistent.adj_symm (h : Consistent n s K) (u w d : Int)
    (huw : CHDijkstra.Adj s.edges s.grid.current u w d) :
    CHDijkstra.Adj s.edges s.grid.current w u d := by
  obtain ⟨e, he, rfl, rfl⟩ := huw
  obtain ⟨e', he', h1, h2⟩ := h.back he
  exact ⟨e', he', h1, h2⟩

theorem Consistent.mutual (h : Consistent n s K) (c : Int) :
    CHDijkstra.Mutual s.edges s.grid.current c := by
  intro x
  constructor
  · rintro ⟨e, he, rfl⟩
    obtain ⟨e', he', heq, _⟩ := h.back he
    exact ⟨e', he', heq⟩
  · rintro ⟨e, he, rfl⟩
    obtain ⟨e', he', heq, _⟩ := h.back he
    exact ⟨e', he', heq⟩

/-! ## Picking the nodes -/

/-- Reading the current edges of a node. -/
theorem Consistent.currentEdges (h : Consistent n s K) {u : Int} (h0 : 0 ≤ u) (h1 : u < n) :
    ∃ count row, s.grid.getCurrentEdgeCount u = .ok count ∧ s.grid.getCurrentEdges u = .ok row ∧
      slice row 0 count = .ok (s.grid.current u) := by
  obtain ⟨rest, hrow, hcount, _⟩ := h.current.node u h0 h1
  exact ⟨_, _, hcount, hrow, slice_append⟩

theorem markNeighbours_spec (h : Consistent n s K) {s₁ : LabelCreator}
    (hedges : s₁.edges = s.edges) (hgrid : s₁.grid = s.grid) {c : Int} (h0 : 0 ≤ c) (h1 : c < n)
    {a : List Bool} (ha : a.length = n) :
    ∃ a', markNeighbours s₁ c a = .ok a' ∧ a'.length = n ∧
      ∀ x : Int, 0 ≤ x → x < n → ∃ b b', rd a x = .ok b ∧ rd a' x = .ok b' ∧
        (b' = true ↔ b = true ∨ ∃ e ∈ s.grid.current c, s.edges.destOf e = x) := by
  obtain ⟨count, row, hcount, hrow, hslice⟩ := h.currentEdges h0 h1
  obtain ⟨a', hrun, hlen, hmark⟩ := foldlM_spec
    (f := fun a edgeId => do wr a (← s.edges.getDest edgeId) true)
    (P := fun pre a' => a'.length = n ∧ ∀ x : Int, 0 ≤ x → x < n →
      ∃ b b', rd a x = .ok b ∧ rd a' x = .ok b' ∧
        (b' = true ↔ b = true ∨ ∃ e ∈ pre, s.edges.destOf e = x))
    (s.grid.current c) a ⟨ha, fun x hx0 hx1 => by
      obtain ⟨b, hb⟩ := exists_rd hx0 (a := a) (by rw [ha]; exact hx1)
      exact ⟨b, b, hb, hb, by simp⟩⟩ (by
      rintro pre e post a₁ hsplit ⟨hlen, hmark⟩
      obtain ⟨_, hid, _, hdest, _, _⟩ := h.edge c e (by rw [hsplit]; simp)
      obtain ⟨hd0, hd1⟩ := h.isNode hdest
      refine ⟨a₁.set (s.edges.destOf e).toNat true, ?_, by rw [List.length_set, hlen], ?_⟩
      · rw [(h.valid.isEdge hid).dest, ok_bind, wr_of_bounds _ hd0 (by rw [hlen]; exact hd1)]
      · intro x hx0 hx1
        obtain ⟨b, b', hb, hb', hiff⟩ := hmark x hx0 hx1
        rw [rd_set hd0 (by rw [hlen]; exact hd1)]
        by_cases hx : x = s.edges.destOf e
        · rw [if_pos hx]
          exact ⟨b, true, hb, rfl, by simp [hx]⟩
        · rw [if_neg hx]
          refine ⟨b, b', hb, hb', ?_⟩
          rw [hiff]
          simp [Ne.symm hx])
  refine ⟨a', ?_, hlen, hmark⟩
  unfold markNeighbours
  rw [hgrid, hedges, hcount, ok_bind, hrow, ok_bind, hslice, ok_bind, hrun]

/-- The state `s₁` while the nodes of the level `lvl` are picked; the nodes
`pre` were looked at. -/
structure Selecting (n : Nat) (lvl : Int) (s : LabelCreator) (pre : List Int)
    (s₁ : LabelCreator) : Prop where
  edges : s₁.edges = s.edges
  grid : s₁.grid = s.grid
  known : s₁.alreadyShortcut = s.alreadyShortcut
  order : s₁.calcOrder = s.calcOrder
  contractedLength : s₁.contracted.length = n
  markLength : s₁.isNeighbour.length = n
  levelsLength : s₁.levels.length = n
  nodup : s₁.nodesToCalc.Nodup
  subset : ∀ c ∈ s₁.nodesToCalc, c ∈ uncontracted s
  indep : ∀ c ∈ s₁.nodesToCalc, ∀ e ∈ s.grid.current c, s.edges.destOf e ∉ s₁.nodesToCalc
  rest : ∀ x, x ∈ uncontracted s₁ ↔ x ∈ uncontracted s ∧ x ∉ s₁.nodesToCalc
  mark : ∀ x : Int, 0 ≤ x → x < n → ∃ b, rd s₁.isNeighbour x = .ok b ∧
    (b = true ↔ x ∈ s₁.nodesToCalc ∨
      ∃ c ∈ s₁.nodesToCalc, ∃ e ∈ s.grid.current c, s.edges.destOf e = x)
  level : ∀ x, rd s₁.levels x = if x ∈ s₁.nodesToCalc then .ok lvl else rd s.levels x
  left : s₁.nonContractedNum = s.nonContractedNum - s₁.nodesToCalc.length
  first : s₁.nodesToCalc = [] → ∀ x ∈ pre, x ∉ uncontracted s

section pick

variable {lvl x : Int} {pre : List Int} {s₁ : LabelCreator}

/-- The node `x` is no neighbour of the picked ones. -/
theorem Selecting.indep_snoc (h : Consistent n s K) (hs : Selecting n lvl s pre s₁)
    (hno : ∀ c ∈ s₁.nodesToCalc, ∀ e ∈ s.grid.current c, s.edges.destOf e ≠ x) :
    ∀ c ∈ s₁.nodesToCalc ++ [x], ∀ e ∈ s.grid.current c,
      s.edges.destOf e ∉ s₁.nodesToCalc ++ [x] := by
  intro c hc e he hmem
  rcases List.mem_append.mp hc with hc | hc
  · rcases List.mem_append.mp hmem with hmem | hmem
    · exact hs.indep c hc e he hmem
    · exact hno c hc e he (List.mem_singleton.mp hmem)
  · rw [List.mem_singleton] at hc
    subst hc
    rcases List.mem_append.mp hmem with hmem | hmem
    · -- the edge back leads from a picked node to the new one
      obtain ⟨e', he', hback, _⟩ := h.back he
      exact hno _ hmem e' he' hback
    · exact (h.edge c e he).2.2.2.2.1 (List.mem_singleton.mp hmem)

/-- The marks after `x` and its neighbours are marked. -/
theorem Selecting.mark_snoc (hs : Selecting n lvl s pre s₁) (hx0 : 0 ≤ x) (hx1 : x < n)
    {a' : List Bool} (hm : ∀ y : Int, 0 ≤ y → y < n → ∃ b b',
      rd (s₁.isNeighbour.set x.toNat true) y = .ok b ∧ rd a' y = .ok b' ∧
        (b' = true ↔ b = true ∨ ∃ e ∈ s.grid.current x, s.edges.destOf e = y)) :
    ∀ y : Int, 0 ≤ y → y < n → ∃ b, rd a' y = .ok b ∧
      (b = true ↔ y ∈ s₁.nodesToCalc ++ [x] ∨
        ∃ c ∈ s₁.nodesToCalc ++ [x], ∃ e ∈ s.grid.current c, s.edges.destOf e = y) := by
  intro y hy0 hy1
  obtain ⟨b, b', hb, hb', hiff⟩ := hm y hy0 hy1
  refine ⟨b', hb', ?_⟩
  rw [hiff]
  rw [rd_set hx0 (by rw [hs.markLength]; exact hx1)] at hb
  by_cases hy : y = x
  · rw [if_pos hy, Except.ok.injEq] at hb
    simp [← hb, hy]
  · rw [if_neg hy] at hb
    obtain ⟨b₀, hb₀, hiff₀⟩ := hs.mark y hy0 hy1
    rw [hb, Except.ok.injEq] at hb₀
    subst hb₀
    rw [hiff₀]
    simp only [List.mem_append, List.mem_singleton, hy, or_false, or_and_right, exists_or,
      exists_eq_left, or_assoc]

theorem Selecting.rest_snoc (hs : Selecting n lvl s pre s₁) (hx0 : 0 ≤ x) (hx1 : x < n)
    {s₂ : LabelCreator} (hc : s₂.contracted = s₁.contracted.set x.toNat true) :
    ∀ y, y ∈ uncontracted s₂ ↔ y ∈ uncontracted s ∧ y ∉ s₁.nodesToCalc ++ [x] := by
  intro y
  rw [mem_uncontracted, hc, rd_set hx0 (by rw [hs.contractedLength]; exact hx1)]
  by_cases hy : y = x
  · simp [hy]
  · rw [if_neg hy, ← mem_uncontracted, hs.rest]
    simp [hy]

end pick

theorem selectNode_spec (h : Consistent n s K) {lvl x : Int} {pre : List Int} {s₁ : LabelCreator}
    (hs : Selecting n lvl s pre s₁) (hx0 : 0 ≤ x) (hx1 : x < n) :
    ∃ s₂, selectNode lvl s₁ x = .ok s₂ ∧ Selecting n lvl s (pre ++ [x]) s₂ := by
  obtain ⟨b₁, hb₁⟩ := exists_rd hx0 (a := s₁.contracted) (by rw [hs.contractedLength]; exact hx1)
  obtain ⟨b₂, hb₂, hmark⟩ := hs.mark x hx0 hx1
  have hunc : x ∈ uncontracted s₁ ↔ b₁ = false := by
    rw [mem_uncontracted, hb₁, Except.ok.injEq]
  unfold selectNode
  rw [hb₁, ok_bind, hb₂, ok_bind]
  by_cases hpick : b₁ = false ∧ b₂ = false
  · obtain ⟨rfl, rfl⟩ := hpick
    obtain ⟨hxs, hxC⟩ := (hs.rest x).mp (hunc.mpr rfl)
    have hno : ∀ c ∈ s₁.nodesToCalc, ∀ e ∈ s.grid.current c, s.edges.destOf e ≠ x := by
      intro c hc e he heq
      have := hmark.mpr (Or.inr ⟨c, hc, e, he, heq⟩)
      simp at this
    have hwm := wr_of_bounds (a := s₁.isNeighbour) true hx0 (by rw [hs.markLength]; exact hx1)
    obtain ⟨a', hmn, hlen, hm⟩ := markNeighbours_spec h hs.edges hs.grid hx0 hx1
      (a := s₁.isNeighbour.set x.toNat true) (by rw [List.length_set, hs.markLength])
    have hwl := wr_of_bounds (a := s₁.levels) lvl hx0 (by rw [hs.levelsLength]; exact hx1)
    have hwc := wr_of_bounds (a := s₁.contracted) true hx0 (by rw [hs.contractedLength]; exact hx1)
    simp only [Bool.not_false, Bool.and_self, if_true, hwc, hwm, hmn, hwl, ok_bind, pure_eq_ok]
    refine ⟨_, rfl, hs.edges, hs.grid, hs.known, hs.order, ?_, hlen, ?_, ?_, ?_,
      hs.indep_snoc h hno, hs.rest_snoc hx0 hx1 rfl, hs.mark_snoc hx0 hx1 hm, ?_, ?_, ?_⟩
    · simp only [List.length_set, hs.contractedLength]
    · simp only [List.length_set, hs.levelsLength]
    · exact List.Nodup.append hs.nodup (by simp) (by simpa using hxC)
    · intro c hc
      rcases List.mem_append.mp hc with hc | hc
      · exact hs.subset c hc
      · exact List.mem_singleton.mp hc ▸ hxs
    · intro y
      simp only
      rw [rd_set hx0 (by rw [hs.levelsLength]; exact hx1), hs.level]
      by_cases hy : y = x
      · simp [hy]
      · simp [hy]
    · simp only [hs.left, List.length_append, List.length_singleton]
      push_cast
      ring
    · intro hnil
      simp at hnil
  · have hskip : (!b₁ && !b₂) = false := by
      cases b₁ <;> cases b₂ <;> simp_all
    rw [hskip]
    refine ⟨s₁, rfl, { hs with first := ?_ }⟩
    intro hnil y hy hyU
    rcases List.mem_append.mp hy with hy | hy
    · exact hs.first hnil y hy hyU
    · rw [List.mem_singleton] at hy
      subst hy
      have h1 := hunc.mp ((hs.rest y).mpr ⟨hyU, by simp [hnil]⟩)
      have h2 : b₂ = false := by
        simpa [hnil] using hmark
      exact hpick ⟨h1, h2⟩

/-- The nodes of a level: some, if there are any left, and no two of them are
neighbours. -/
theorem selectNodes_spec (h : Consistent n s K) (lvl : Int) :
    ∃ s₁, selectNodes lvl s = .ok s₁ ∧ Selecting n lvl s s.calcOrder s₁ := by
  have hlen : (List.replicate s.isNeighbour.length false).length = n := by
    rw [List.length_replicate, h.markLength]
  refine foldlM_spec s.calcOrder _ ⟨rfl, rfl, rfl, rfl, h.contractedLength, hlen, h.levelsLength,
    by simp, by simp, by simp, fun x => by simp [uncontracted], ?_, by simp, by simp, by simp⟩ ?_
  · intro x hx0 hx1
    obtain ⟨b, hb⟩ := exists_rd hx0 (a := List.replicate s.isNeighbour.length false)
      (by rw [hlen]; exact hx1)
    exact ⟨b, hb, by simpa using (List.eq_of_mem_replicate (mem_of_rd hb))⟩
  · intro pre x post s₁ hsplit hs
    obtain ⟨hx0, hx1⟩ := (h.order x).mp (by rw [hsplit]; simp)
    exact selectNode_spec h hs hx0 hx1

/-! ## The searches of the threads -/

theorem distribute_loop :
    ∀ (l : List (Int × Nat)) (threads : List CHDijkstra), threads.length = NUM_OF_THREADS →
      (∀ t ∈ threads, CHDijkstra.Ready t) →
      (∀ t ∈ l.foldl (fun threads (id, i) =>
          threads.modify (i % NUM_OF_THREADS) (CHDijkstra.addNodeId · id)) threads,
        CHDijkstra.Ready t) ∧
      ∀ c, (∃ t ∈ l.foldl (fun threads (id, i) =>
          threads.modify (i % NUM_OF_THREADS) (CHDijkstra.addNodeId · id)) threads,
          c ∈ t.nodeIdsToCalc) ↔ (∃ t ∈ threads, c ∈ t.nodeIdsToCalc) ∨ c ∈ l.map Prod.fst := by
  intro l
  induction l with
  | nil =>
    intro threads _ hready
    exact ⟨hready, fun c => by simp⟩
  | cons p l ih =>
    obtain ⟨id, i⟩ := p
    intro threads hlen hready
    have hi : i % NUM_OF_THREADS < threads.length := by
      rw [hlen]
      exact Nat.mod_lt _ (by decide)
    have hmod : ∀ t, t ∈ threads.modify (i % NUM_OF_THREADS) (CHDijkstra.addNodeId · id) →
        t ∈ threads ∨ ∃ t₀ ∈ threads, t = t₀.addNodeId id := by
      intro t ht
      obtain ⟨j, hj⟩ := List.mem_iff_getElem?.mp ht
      rw [List.getElem?_modify] at hj
      split_ifs at hj with hij
      · obtain ⟨t₀, ht₀, rfl⟩ := Option.map_eq_some_iff.mp hj
        exact Or.inr ⟨t₀, List.mem_of_getElem? ht₀, rfl⟩
      · obtain ⟨t₀, ht₀, rfl⟩ := Option.map_eq_some_iff.mp hj
        exact Or.inl (List.mem_of_getElem? ht₀)
    obtain ⟨h1, h2⟩ := ih (threads.modify (i % NUM_OF_THREADS) (CHDijkstra.addNodeId · id))
      (by rw [List.length_modify, hlen]) (by
        intro t ht
        rcases hmod t ht with ht | ⟨t₀, ht₀, rfl⟩
        · exact hready t ht
        · have := hready t₀ ht₀
          exact ⟨this.pos, this.dist, this.final, this.prevNode, this.prevEdge, this.heap⟩)
    refine ⟨h1, fun c => (h2 c).trans ?_⟩
    rw [List.map_cons, List.mem_cons, ← or_assoc]
    refine or_congr_left ?_
    constructor
    · rintro ⟨t, ht, hc⟩
      rcases hmod t ht with ht | ⟨t₀, ht₀, rfl⟩
      · exact Or.inl ⟨t, ht, hc⟩
      · rcases List.mem_append.mp hc with hc | hc
        · exact Or.inl ⟨t₀, ht₀, hc⟩
        · exact Or.inr (List.mem_singleton.mp hc)
    · -- the thread with the number `i` keeps its nodes and gets one more
      have hnew : ∀ j t₀, threads[j]? = some t₀ →
          (if i % NUM_OF_THREADS = j then t₀.addNodeId id else t₀)
            ∈ threads.modify (i % NUM_OF_THREADS) (CHDijkstra.addNodeId · id) := by
        intro j t₀ hj
        refine List.mem_of_getElem? (i := j) ?_
        rw [List.getElem?_modify, hj]
        split_ifs <;> rfl
      rintro (⟨t₀, ht₀, hc⟩ | rfl)
      · obtain ⟨j, hj⟩ := List.mem_iff_getElem?.mp ht₀
        refine ⟨_, hnew j t₀ hj, ?_⟩
        split_ifs
        · exact List.mem_append_left _ hc
        · exact hc
      · refine ⟨_, hnew _ _ (List.getElem?_eq_getElem hi), ?_⟩
        rw [if_pos rfl]
        exact List.mem_append_right _ (List.mem_singleton.mpr rfl)

/-- Every node goes to some thread. -/
theorem distribute_spec (cs : List Int) : (∀ t ∈ distribute cs, CHDijkstra.Ready t) ∧
    ∀ c, (∃ t ∈ distribute cs, c ∈ t.nodeIdsToCalc) ↔ c ∈ cs := by
  obtain ⟨h1, h2⟩ := distribute_loop cs.zipIdx (List.replicate NUM_OF_THREADS CHDijkstra.new)
    (by simp) (fun t ht => List.eq_of_mem_replicate ht ▸ CHDijkstra.ready_new)
  refine ⟨h1, fun c => (h2 c).trans ?_⟩
  have hnone : ¬ ∃ t ∈ List.replicate NUM_OF_THREADS CHDijkstra.new, c ∈ t.nodeIdsToCalc := by
    rintro ⟨t, ht, hc⟩
    rw [List.eq_of_mem_replicate ht] at hc
    simp [CHDijkstra.new] at hc
  rw [or_iff_right hnone, List.zipIdx_map_fst]

/-- What the threads note together. -/
theorem searches_spec {E : Edges} {G : DynamicGrid} {L : Int → List Int} {V : Finset Int}
    (hg : CHDijkstra.SearchGraph E G L V) {cs : List Int}
    (hcs : ∀ c ∈ cs, c ∈ V ∧ CHDijkstra.Mutual E L c) :
    ∃ threads, (distribute cs).mapM (CHDijkstra.run E G) = .ok threads ∧
      CHDijkstra.NotesAll E L cs (threads.flatMap CHDijkstra.shortcuts) := by
  have hrun : ∀ threads : List CHDijkstra, (∀ t ∈ threads, CHDijkstra.Ready t ∧
      ∀ c ∈ t.nodeIdsToCalc, c ∈ V ∧ CHDijkstra.Mutual E L c) →
      ∃ threads', threads.mapM (CHDijkstra.run E G) = .ok threads' ∧
        CHDijkstra.NotesAll E L (threads.flatMap CHDijkstra.nodeIdsToCalc)
          (threads'.flatMap CHDijkstra.shortcuts) := by
    intro threads
    induction threads with
    | nil =>
      intro _
      exact ⟨[], rfl, CHDijkstra.notesAll_nil⟩
    | cons t threads ih =>
      intro h
      obtain ⟨hready, hids⟩ := h t List.mem_cons_self
      obtain ⟨t', ht', hnotes⟩ := CHDijkstra.run_spec hg hready hids
      obtain ⟨threads', hrest, hnotes'⟩ := ih (fun t ht => h t (List.mem_cons_of_mem _ ht))
      refine ⟨t' :: threads', ?_, ?_⟩
      · rw [List.mapM_cons, ht', ok_bind, hrest]
        rfl
      · rw [List.flatMap_cons, List.flatMap_cons]
        exact hnotes.append hnotes'
  obtain ⟨hready, hmem⟩ := distribute_spec cs
  obtain ⟨threads, hthreads, hnotes⟩ := hrun (distribute cs) (fun t ht =>
    ⟨hready t ht, fun c hc => hcs c ((hmem c).mp ⟨t, ht, hc⟩)⟩)
  have hsame : ∀ c, c ∈ (distribute cs).flatMap CHDijkstra.nodeIdsToCalc ↔ c ∈ cs := by
    intro c
    rw [List.mem_flatMap]
    exact hmem c
  refine ⟨threads, hthreads, ?_, ?_⟩
  · intro t ht
    obtain ⟨c, hc, hsc⟩ := hnotes.sound t ht
    exact ⟨c, (hsame c).mp hc, hsc⟩
  · intro c hc
    exact hnotes.complete c ((hsame c).mpr hc)

/-! ## Adding the shortcuts -/

/-- The fields that only the first part of `calcNextLvl` writes. -/
structure SameNodes (s₁ s₂ : LabelCreator) : Prop where
  levels : s₂.levels = s₁.levels
  contracted : s₂.contracted = s₁.contracted
  isNeighbour : s₂.isNeighbour = s₁.isNeighbour
  calcOrder : s₂.calcOrder = s₁.calcOrder
  nodesToCalc : s₂.nodesToCalc = s₁.nodesToCalc
  nonContractedNum : s₂.nonContractedNum = s₁.nonContractedNum

/-- The edge `e` was added for the shortcut `t`, which starts at `u`. -/
structure IsNew (E : Edges) (K : Int → Int → Prop) (u e : Int) (t : Shortcut) : Prop where
  start : t.startId = u
  unknown : ¬ K u t.destId
  edge : E.IsEdge e u t.destId t.distance
  parts : E.HasParts e t.edgeId1 t.edgeId2

/-- The state `s₂` after the shortcuts `done` were added; `s` is the state at
the beginning of the level and `N u` are the new edges of the node `u`. -/
structure Adding (n : Nat) (s : LabelCreator) (K : Int → Int → Prop) (s₁ : LabelCreator)
    (done : List Shortcut) (s₂ : LabelCreator) (N : Int → List Int) : Prop where
  same : SameNodes s₁ s₂
  valid : s₂.edges.Valid
  extends_ : Edges.Extends s.edges s₂.edges
  current : DynamicGrid.Lists n (· ∈ uncontracted s) s₂.grid.currentEdgeIds
    s₂.grid.currentEdgeCount (fun x => s.grid.current x ++ N x)
  all : DynamicGrid.Lists n (fun _ => True) s₂.grid.allEdgeIds s₂.grid.allEdgeCount
    (fun x => s.grid.all x ++ N x)
  knownLength : s₂.alreadyShortcut.length = n
  known : ∀ u : Int, 0 ≤ u → u < n → ∃ set, rd s₂.alreadyShortcut u = .ok set ∧
    IntArraySet.Holds set (fun w => K u w ∨ ∃ t ∈ done, t.startId = u ∧ t.destId = w)
  new : ∀ u, ∀ e ∈ N u, s.edges.nextShortcutId ≤ e ∧ ∃ t ∈ done, IsNew s₂.edges K u e t
  once : ∀ u, (N u).Pairwise fun e e' => s₂.edges.destOf e ≠ s₂.edges.destOf e'
  cover : ∀ t ∈ done, ¬ K t.startId t.destId →
    ∃ e ∈ N t.startId, s₂.edges.destOf e = t.destId
  ids : ∀ e, s.edges.nextShortcutId ≤ e → e < s₂.edges.nextShortcutId → ∃ u, e ∈ N u

theorem IsNew.mono {E E' : Edges} {u e : Int} {t : Shortcut} (h : IsNew E K u e t)
    (hE : Edges.Extends E E') (he : E.numOfOriginalEdges ≤ e) : IsNew E' K u e t :=
  ⟨h.start, h.unknown, hE.edge _ _ _ _ h.edge, hE.parts _ _ _ he h.edge.lt_next h.parts⟩

/-- A pair that is already in the set is skipped. -/
theorem Adding.skip {s₁ s₂ : LabelCreator} {done : List Shortcut} {N : Int → List Int}
    (h : Adding n s K s₁ done s₂ N) {t : Shortcut}
    (ht : K t.startId t.destId ∨ ∃ t' ∈ done, t'.startId = t.startId ∧ t'.destId = t.destId) :
    Adding n s K s₁ (done ++ [t]) s₂ N := by
  refine { h with known := ?_, new := ?_, cover := ?_ }
  · intro u h0 h1
    obtain ⟨set, hset, hP⟩ := h.known u h0 h1
    refine ⟨set, hset, hP.congr fun w => ?_⟩
    constructor
    · rintro (hK | ⟨t', ht', rfl, rfl⟩)
      · exact Or.inl hK
      · rcases List.mem_append.mp ht' with ht' | ht'
        · exact Or.inr ⟨t', ht', rfl, rfl⟩
        · rw [List.mem_singleton.mp ht']
          exact ht
    · rintro (hK | ⟨t', ht', heq⟩)
      · exact Or.inl hK
      · exact Or.inr ⟨t', List.mem_append_left _ ht', heq⟩
  · intro u e he
    obtain ⟨hle, t', ht', hnew⟩ := h.new u e he
    exact ⟨hle, t', List.mem_append_left _ ht', hnew⟩
  · intro t' ht' hK
    rcases List.mem_append.mp ht' with ht' | ht'
    · exact h.cover t' ht' hK
    · rw [List.mem_singleton.mp ht'] at hK ⊢
      obtain ⟨t'', ht'', h1, h2⟩ := ht.resolve_left hK
      rw [← h1, ← h2] at hK ⊢
      exact h.cover t'' ht'' hK

section snoc

variable {s₁ s₂ : LabelCreator} {done : List Shortcut} {N : Int → List Int} {t : Shortcut}
  {E' : Edges} {id : Int}

/-- The new edges, with the one of a further shortcut. -/
def snocNew (N : Int → List Int) (t : Shortcut) (id : Int) (u : Int) : List Int :=
  if u = t.startId then N u ++ [id] else N u

theorem mem_snocNew {u e : Int} : e ∈ snocNew N t id u ↔ e ∈ N u ∨ u = t.startId ∧ e = id := by
  unfold snocNew
  split_ifs with hu
  · simp [hu]
  · simp [hu]

theorem lists_snocNew {alive : Int → Prop} {ids : List (List Int)} {counts : List Int}
    {L : Int → List Int} (h : DynamicGrid.Lists n alive ids counts
      (fun u => if u = t.startId then L t.startId ++ N t.startId ++ [id] else L u ++ N u)) :
    DynamicGrid.Lists n alive ids counts (fun u => L u ++ snocNew N t id u) := by
  refine h.congr (fun _ hx => hx) fun u _ _ => ?_
  unfold snocNew
  split_ifs with hu
  · rw [hu, List.append_assoc]
  · rfl

theorem Adding.destOf_new (h : Adding n s K s₁ done s₂ N) (hext : Edges.Extends s₂.edges E') :
    ∀ u, ∀ e ∈ N u, E'.destOf e = s₂.edges.destOf e := by
  intro u e he
  obtain ⟨_, t', _, hnew⟩ := h.new u e he
  exact hext.destOf_eq h.valid ⟨hnew.edge.nonneg, hnew.edge.lt_next⟩

theorem Adding.known_snoc (h : Adding n s K s₁ done s₂ N) (hu0 : 0 ≤ t.startId)
    (hu1 : t.startId < n) {set' : IntArraySet} (hP : IntArraySet.Holds set' fun w =>
      (K t.startId w ∨ ∃ t' ∈ done, t'.startId = t.startId ∧ t'.destId = w) ∨ w = t.destId) :
    ∀ u : Int, 0 ≤ u → u < n → ∃ set,
      rd (s₂.alreadyShortcut.set t.startId.toNat set') u = .ok set ∧
      IntArraySet.Holds set (fun w => K u w ∨ ∃ t' ∈ done ++ [t], t'.startId = u ∧ t'.destId = w) := by
  intro u h0 h1
  rw [rd_set hu0 (by rw [h.knownLength]; exact hu1)]
  by_cases hu : u = t.startId
  · rw [if_pos hu]
    refine ⟨set', rfl, hP.congr fun w => ?_⟩
    rw [hu, eq_comm (a := w)]
    simp only [List.mem_append, List.mem_singleton, or_and_right, exists_or, exists_eq_left,
      or_assoc, true_and]
  · rw [if_neg hu]
    obtain ⟨set₀, hset₀, hP₀⟩ := h.known u h0 h1
    refine ⟨set₀, hset₀, hP₀.congr fun w => ?_⟩
    simp only [List.mem_append, List.mem_singleton, or_and_right, exists_or, exists_eq_left,
      Ne.symm hu, false_and, or_false]

theorem Adding.new_snoc (h : Adding n s K s₁ done s₂ N) (hext : Edges.Extends s₂.edges E')
    (horig : s.edges.numOfOriginalEdges ≤ s.edges.nextShortcutId)
    (hid : s.edges.nextShortcutId ≤ id) (hnew : IsNew E' K t.startId id t) :
    ∀ u, ∀ e ∈ snocNew N t id u,
      s.edges.nextShortcutId ≤ e ∧ ∃ t' ∈ done ++ [t], IsNew E' K u e t' := by
  intro u e he
  cases mem_snocNew.mp he with
  | inl he =>
    obtain ⟨hle, t', ht', hnew'⟩ := h.new u e he
    exact ⟨hle, t', List.mem_append_left _ ht',
      hnew'.mono hext (by rw [h.extends_.orig]; omega)⟩
  | inr he =>
    rw [he.1, he.2]
    exact ⟨hid, t, List.mem_append_right _ (List.mem_singleton.mpr rfl), hnew⟩

theorem Adding.once_snoc (h : Adding n s K s₁ done s₂ N) (hext : Edges.Extends s₂.edges E')
    (hdest : E'.destOf id = t.destId)
    (hfresh : ¬ ∃ t' ∈ done, t'.startId = t.startId ∧ t'.destId = t.destId) :
    ∀ u, (snocNew N t id u).Pairwise fun e e' => E'.destOf e ≠ E'.destOf e' := by
  intro u
  have hold : (N u).Pairwise fun e e' => E'.destOf e ≠ E'.destOf e' := by
    refine (h.once u).imp_of_mem ?_
    intro e e' he he' hne
    rw [h.destOf_new hext u e he, h.destOf_new hext u e' he']
    exact hne
  unfold snocNew
  split_ifs with hu
  · rw [List.pairwise_append]
    refine ⟨hold, List.pairwise_singleton _ _, ?_⟩
    intro e he e' he' heq
    rw [List.mem_singleton.mp he', hdest] at heq
    obtain ⟨_, t', ht', hnew⟩ := h.new u e he
    rw [h.destOf_new hext u e he, hnew.edge.destOf_eq] at heq
    exact hfresh ⟨t', ht', hnew.start.trans hu, heq⟩
  · exact hold

theorem Adding.cover_snoc (h : Adding n s K s₁ done s₂ N) (hext : Edges.Extends s₂.edges E')
    (hdest : E'.destOf id = t.destId) :
    ∀ t' ∈ done ++ [t], ¬ K t'.startId t'.destId →
      ∃ e ∈ snocNew N t id t'.startId, E'.destOf e = t'.destId := by
  intro t' ht' hK
  cases List.mem_append.mp ht' with
  | inl ht' =>
    obtain ⟨e, he, heq⟩ := h.cover t' ht' hK
    exact ⟨e, mem_snocNew.mpr (Or.inl he), (h.destOf_new hext _ e he).trans heq⟩
  | inr ht' =>
    rw [List.mem_singleton.mp ht']
    exact ⟨id, mem_snocNew.mpr (Or.inr ⟨rfl, rfl⟩), hdest⟩

theorem Adding.ids_snoc (h : Adding n s K s₁ done s₂ N)
    (hnext : E'.nextShortcutId = s₂.edges.nextShortcutId + 1) :
    ∀ e, s.edges.nextShortcutId ≤ e → e < E'.nextShortcutId →
      ∃ u, e ∈ snocNew N t s₂.edges.nextShortcutId u := by
  intro e hle hlt
  by_cases he : e = s₂.edges.nextShortcutId
  · exact ⟨t.startId, mem_snocNew.mpr (Or.inr ⟨rfl, he⟩)⟩
  · obtain ⟨u, hu⟩ := h.ids e hle (by omega)
    exact ⟨u, mem_snocNew.mpr (Or.inl hu)⟩

end snoc

/-- One iteration of the loop that adds the shortcuts. -/
theorem addShortcut_spec (hc : Consistent n s K) {s₁ s₂ : LabelCreator} {done : List Shortcut}
    {N : Int → List Int} (h : Adding n s K s₁ done s₂ N) {t : Shortcut}
    (hstart : t.startId ∈ uncontracted s) (hdest : t.destId ∈ uncontracted s)
    (hnum : 2 ≤ s.edges.numOfOriginalEdges) :
    ∃ s₃ N', addShortcut s₂ t = .ok s₃ ∧ Adding n s K s₁ (done ++ [t]) s₃ N' := by
  obtain ⟨hu0, hu1⟩ := hc.isNode hstart
  have hsmall : t.destId < MAX_VALUE := lt_of_lt_of_le (hc.isNode hdest).2 hc.small
  obtain ⟨set, hset, hP⟩ := h.known t.startId hu0 hu1
  obtain ⟨b, hb, hbiff⟩ := IntArraySet.contains_spec hP hsmall
  unfold addShortcut
  rw [hset, ok_bind, hb, ok_bind]
  cases b with
  | true => exact ⟨s₂, N, rfl, h.skip (hbiff.mp rfl)⟩
  | false =>
    have hfresh : ¬ (K t.startId t.destId ∨
        ∃ t' ∈ done, t'.startId = t.startId ∧ t'.destId = t.destId) := by
      intro hyes
      have := hbiff.mpr hyes
      simp at this
    rw [not_or] at hfresh
    obtain ⟨E', hadd, hval, hext, hnext, hedge, hparts⟩ := Edges.addShortcutEdge_spec h.valid
      (by rw [h.extends_.orig]; exact hnum) t.startId t.destId t.distance t.edgeId1 t.edgeId2
    obtain ⟨grid', hgrid, hcur, hall⟩ := DynamicGrid.addEdge_spec h.current h.all hu0 hu1 hstart
      trivial s₂.edges.nextShortcutId
    obtain ⟨set', hset', hP'⟩ := IntArraySet.add_spec hP hsmall
    have hwr := wr_of_bounds (a := s₂.alreadyShortcut) set' hu0 (by rw [h.knownLength]; exact hu1)
    refine ⟨{ s₂ with
        edges := E'
        grid := grid'
        alreadyShortcut := s₂.alreadyShortcut.set t.startId.toNat set' },
      snocNew N t s₂.edges.nextShortcutId, ?_,
      ⟨h.same.levels, h.same.contracted, h.same.isNeighbour, h.same.calcOrder, h.same.nodesToCalc,
        h.same.nonContractedNum⟩, hval, h.extends_.trans hext, lists_snocNew hcur,
      lists_snocNew hall, ?_, h.known_snoc hu0 hu1 hP',
      h.new_snoc hext hc.valid.orig_le_next h.extends_.next_le ⟨rfl, hfresh.1, hedge, hparts⟩,
      h.once_snoc hext hedge.destOf_eq hfresh.2, h.cover_snoc hext hedge.destOf_eq,
      h.ids_snoc hnext⟩
    · simp only [Bool.false_eq_true, if_false, hadd, hgrid, hset', hwr, ok_bind]
      rfl
    · rw [List.length_set, h.knownLength]

/-- Adding all the shortcuts of a level. -/
theorem addShortcuts_spec (hc : Consistent n s K) {s₁ : LabelCreator}
    (hedges : s₁.edges = s.edges) (hgrid : s₁.grid = s.grid)
    (hknown : s₁.alreadyShortcut = s.alreadyShortcut) (new : List Shortcut)
    (hnew : ∀ t ∈ new, t.startId ∈ uncontracted s ∧ t.destId ∈ uncontracted s ∧
      2 ≤ s.edges.numOfOriginalEdges) :
    ∃ s₂ N, new.foldlM addShortcut s₁ = .ok s₂ ∧ Adding n s K s₁ new s₂ N := by
  obtain ⟨s₂, hrun, N, hadd⟩ := foldlM_spec (f := addShortcut)
    (P := fun done s₂ => ∃ N, Adding n s K s₁ done s₂ N) new s₁
    ⟨fun _ => [], ⟨rfl, rfl, rfl, rfl, rfl, rfl⟩, by rw [hedges]; exact hc.valid,
      by rw [hedges]; exact Edges.Extends.refl _, by
        rw [hgrid]
        exact hc.current.congr (fun _ hx => hx) (by simp), by
        rw [hgrid]
        exact hc.all.congr (fun _ hx => hx) (by simp), by rw [hknown]; exact hc.knownLength, by
        intro u h0 h1
        obtain ⟨set, hset, hP⟩ := hc.known u h0 h1
        exact ⟨set, by rw [hknown]; exact hset, hP.congr fun w => by simp⟩, by simp, by simp,
      by simp, fun e h0 h1 => by rw [hedges] at h1; omega⟩ (by
      rintro done t post s₂ hsplit ⟨N, hadd⟩
      obtain ⟨h1, h2, h3⟩ := hnew t (by rw [hsplit]; simp)
      obtain ⟨s₃, N', hrun, hadd'⟩ := addShortcut_spec hc hadd h1 h2 h3
      exact ⟨s₃, hrun, N', hadd'⟩)
  exact ⟨s₂, N, hrun, hadd⟩

/-! ## Removing the nodes -/

/-- The lists that are left when the nodes `cs` are gone. -/
def without (E : Edges) (L : Int → List Int) (cs : List Int) (x : Int) : List Int :=
  if x ∈ cs then [] else (L x).filter fun e => E.destOf e ∉ cs

theorem without_nil (E : Edges) (L : Int → List Int) (x : Int) : without E L [] x = L x := by
  simp [without]

theorem without_append_singleton (E : Edges) (L : Int → List Int) (cs : List Int) {c x : Int}
    (hx : x ≠ c) :
    without E L (cs ++ [c]) x = (without E L cs x).filter fun e => E.destOf e ≠ c := by
  unfold without
  by_cases hmem : x ∈ cs
  · rw [if_pos hmem, if_pos (List.mem_append_left _ hmem), List.filter_nil]
  · have hnot : x ∉ cs ++ [c] := by simp [hmem, hx]
    rw [if_neg hmem, if_neg hnot, List.filter_filter]
    congr 1
    funext e
    simp [not_or, and_comm]

/-- Removing nodes no two of which are neighbours. -/
theorem removeNodes_loop {E : Edges} {G : DynamicGrid} {alive : Int → Prop} {L : Int → List Int}
    (h : DynamicGrid.Lists n alive G.currentEdgeIds G.currentEdgeCount L) {cs : List Int}
    (hnodup : cs.Nodup) (hnode : ∀ c ∈ cs, 0 ≤ c ∧ c < n)
    (hids : ∀ x : Int, 0 ≤ x → x < n → ∀ e ∈ L x, E.getDest e = .ok (E.destOf e))
    (hdest : ∀ c ∈ cs, ∀ e ∈ L c, 0 ≤ E.destOf e ∧ E.destOf e < n ∧ E.destOf e ∉ cs)
    (hcount : ∀ c ∈ cs, ∀ x : Int, 0 ≤ x → x < n →
      (L x).countP (fun e => E.destOf e = c) = (L c).countP fun e => E.destOf e = x) :
    ∃ G' L', cs.foldlM (DynamicGrid.removeNode E) G = .ok G' ∧
      G'.allEdgeIds = G.allEdgeIds ∧ G'.allEdgeCount = G.allEdgeCount ∧
      DynamicGrid.Lists n (fun x => alive x ∧ x ∉ cs) G'.currentEdgeIds G'.currentEdgeCount L' ∧
      ∀ x : Int, 0 ≤ x → x < n → (L' x).Perm (without E L cs x) := by
  obtain ⟨G', hrun, L', h1, h2, h3, h4⟩ := foldlM_spec (f := DynamicGrid.removeNode E)
    (P := fun pre G' => ∃ L', G'.allEdgeIds = G.allEdgeIds ∧ G'.allEdgeCount = G.allEdgeCount ∧
      DynamicGrid.Lists n (fun x => alive x ∧ x ∉ pre) G'.currentEdgeIds G'.currentEdgeCount L' ∧
      ∀ x : Int, 0 ≤ x → x < n → (L' x).Perm (without E L pre x)) cs G
    ⟨L, rfl, rfl, h.congr (fun _ hx => hx.1) (fun _ _ _ => rfl),
      fun x _ _ => by rw [without_nil]⟩ (by
      rintro pre c post G₁ hsplit ⟨L₁, hall, hall', hl, hperm⟩
      have hcs : c ∈ cs := by rw [hsplit]; simp
      have hpre : ∀ x ∈ pre, x ∈ cs := fun x hx => by rw [hsplit]; simp [hx]
      obtain ⟨hc0, hc1⟩ := hnode c hcs
      have hcpre : c ∉ pre := by
        rw [hsplit, List.nodup_append] at hnodup
        exact fun hc => hnodup.2.2 c hc c List.mem_cons_self rfl
      have hown : (L₁ c).Perm (L c) := by
        have := hperm c hc0 hc1
        rwa [without, if_neg hcpre, List.filter_eq_self.mpr (by
          intro e he
          have := (hdest c hcs e he).2.2
          simpa using fun hx => this (hpre _ hx))] at this
      have hsub : ∀ x : Int, 0 ≤ x → x < n → ∀ e ∈ L₁ x, e ∈ L x := by
        intro x hx0 hx1 e he
        have := (hperm x hx0 hx1).mem_iff.mp he
        unfold without at this
        split_ifs at this
        · simp at this
        · exact List.mem_of_mem_filter this
      obtain ⟨G₂, L₂, hstep, ha, ha', hl₂, hempty, hrest⟩ := DynamicGrid.removeNode_spec hl hc0 hc1
        (fun x hx0 hx1 e he => hids x hx0 hx1 e (hsub x hx0 hx1 e he))
        (by
          intro e he
          obtain ⟨hd0, hd1, hd⟩ := hdest c hcs e (hown.mem_iff.mp he)
          exact ⟨hd0, hd1, fun heq => hd (heq ▸ hcs)⟩)
        (by
          intro x hx0 hx1
          rw [(hperm x hx0 hx1).countP_eq, hown.countP_eq, ← hcount c hcs x hx0 hx1]
          unfold without
          by_cases hx : x ∈ pre
          · rw [if_pos hx, List.countP_nil, hcount c hcs x hx0 hx1]
            refine (List.countP_eq_zero.mpr ?_).symm
            intro e he heq
            refine (hdest c hcs e he).2.2 ?_
            rw [of_decide_eq_true heq]
            exact hpre x hx
          · rw [if_neg hx, List.countP_filter]
            congr 1
            funext e
            by_cases he : E.destOf e = c
            · simp [he, hcpre]
            · simp [he])
      refine ⟨G₂, hstep, L₂, ha.trans hall, ha'.trans hall', hl₂.congr ?_ (fun _ _ _ => rfl), ?_⟩
      · rintro x ⟨hx, hnot⟩
        rw [List.mem_append, not_or, List.mem_singleton] at hnot
        exact ⟨⟨hx, hnot.1⟩, hnot.2⟩
      · intro x hx0 hx1
        by_cases hx : x = c
        · rw [hx, hempty, without, if_pos (by simp)]
        · rw [without_append_singleton E L pre hx]
          exact (hrest x hx0 hx1 hx).trans ((hperm x hx0 hx1).filter _))
  exact ⟨G', L', hrun, h1, h2, h3, h4⟩

/-! ## The whole level -/

/-- What `calcNextLvl(lvl)` does to the state `s`: it contracts the nodes `cs`,
the threads note the shortcuts `new`, and `N u` are the edges that the node `u`
gets for them. -/
structure LevelStep (n : Nat) (lvl : Int) (s : LabelCreator) (K : Int → Int → Prop)
    (s' : LabelCreator) (cs : List Int) (new : List Shortcut) (N : Int → List Int) : Prop where
  picked : ∃ s₁, selectNodes lvl s = .ok s₁ ∧ s₁.nodesToCalc = cs
  nodup : cs.Nodup
  subset : ∀ c ∈ cs, c ∈ uncontracted s
  indep : ∀ c ∈ cs, ∀ e ∈ s.grid.current c, s.edges.destOf e ∉ cs
  progress : cs = [] → uncontracted s = ∅
  rest : ∀ x, x ∈ uncontracted s' ↔ x ∈ uncontracted s ∧ x ∉ cs
  level : ∀ x, rd s'.levels x = if x ∈ cs then .ok lvl else rd s.levels x
  left : s'.nonContractedNum = s.nonContractedNum - cs.length
  order : s'.calcOrder = s.calcOrder
  contractedLength : s'.contracted.length = n
  markLength : s'.isNeighbour.length = n
  levelsLength : s'.levels.length = n
  notes : CHDijkstra.NotesAll s.edges s.grid.current cs new
  ends : ∀ t ∈ new, t.startId ∈ uncontracted s' ∧ t.destId ∈ uncontracted s'
  valid : s'.edges.Valid
  extends_ : Edges.Extends s.edges s'.edges
  lists : DynamicGrid.Lists n (· ∈ uncontracted s') s'.grid.currentEdgeIds
    s'.grid.currentEdgeCount s'.grid.current
  allLists : DynamicGrid.Lists n (fun _ => True) s'.grid.allEdgeIds s'.grid.allEdgeCount
    s'.grid.all
  current : ∀ x, (s'.grid.current x).Perm
    (if x ∈ cs then [] else (s.grid.current x).filter (fun e => s.edges.destOf e ∉ cs) ++ N x)
  all : ∀ x, s'.grid.all x = s.grid.all x ++ N x
  knownLength : s'.alreadyShortcut.length = n
  known : ∀ u : Int, 0 ≤ u → u < n → ∃ set, rd s'.alreadyShortcut u = .ok set ∧
    IntArraySet.Holds set (fun w => K u w ∨ ∃ t ∈ new, t.startId = u ∧ t.destId = w)
  new_ : ∀ u, ∀ e ∈ N u, s.edges.nextShortcutId ≤ e ∧ ∃ t ∈ new, IsNew s'.edges K u e t
  once : ∀ u, (N u).Pairwise fun e e' => s'.edges.destOf e ≠ s'.edges.destOf e'
  cover : ∀ t ∈ new, ¬ K t.startId t.destId →
    ∃ e ∈ N t.startId, s'.edges.destOf e = t.destId
  ids : ∀ e, s.edges.nextShortcutId ≤ e → e < s'.edges.nextShortcutId → ∃ u, e ∈ N u

/-- Equal lengths with equal frequency are equally many edges. -/
theorem countP_eq_of_countTo {E : Edges} {l l' : List Int} {u w : Int}
    (h : ∀ d, countTo E l w d = countTo E l' u d) :
    l.countP (fun e => E.destOf e = w) = l'.countP fun e => E.destOf e = u := by
  have hcount : ∀ (l : List Int) (w d : Int),
      ((l.filter fun e => E.destOf e = w).map E.distOf).count d = countTo E l w d := by
    intro l w d
    rw [List.count_eq_countP, List.countP_map, List.countP_filter, countTo]
    congr 1
    funext e
    by_cases h1 : E.destOf e = w
    · by_cases h2 : E.distOf e = d
      · simp [h1, h2]
      · simp [h1, h2]
    · simp [h1]
  have hperm : ((l.filter fun e => E.destOf e = w).map E.distOf).Perm
      ((l'.filter fun e => E.destOf e = u).map E.distOf) := by
    rw [List.perm_iff_count]
    intro d
    rw [hcount, hcount, h]
  have := hperm.length_eq
  rwa [List.length_map, List.length_map, ← List.countP_eq_length_filter,
    ← List.countP_eq_length_filter] at this

/-- A shortcut joins two nodes that stay. -/
theorem ends_of_isShortcut (h : Consistent n s K) {cs : List Int}
    (hindep : ∀ c ∈ cs, ∀ e ∈ s.grid.current c, s.edges.destOf e ∉ cs) {c : Int} (hc : c ∈ cs)
    {t : Shortcut} (ht : CHDijkstra.IsShortcut s.edges s.grid.current c t) :
    (t.startId ∈ uncontracted s ∧ t.startId ∉ cs) ∧ t.destId ∈ uncontracted s ∧ t.destId ∉ cs := by
  refine ⟨⟨(h.edge _ _ ht.first).1, fun hmem => ?_⟩, ?_, ?_⟩
  · have := hindep _ hmem _ ht.first
    rw [ht.first_dest] at this
    exact this hc
  · rw [← ht.second_dest]
    exact (h.edge _ _ ht.second).2.2.2.1
  · rw [← ht.second_dest]
    exact hindep c hc _ ht.second

section remove

variable {s₁ s₂ : LabelCreator} {new : List Shortcut} {N : Int → List Int} {cs : List Int}

/-- A node at which no shortcut begins gets no new edge. -/
theorem Adding.nil (ha : Adding n s K s₁ new s₂ N) {c : Int} (h : ∀ t ∈ new, t.startId ≠ c) :
    N c = [] := by
  by_contra hne
  obtain ⟨e, he⟩ := List.exists_mem_of_ne_nil _ hne
  obtain ⟨_, t, ht, hn⟩ := ha.new c e he
  exact h t ht hn.start

theorem Adding.dest_notMem (ha : Adding n s K s₁ new s₂ N) (h : ∀ t ∈ new, t.destId ∉ cs) :
    ∀ x, ∀ e ∈ N x, s₂.edges.destOf e ∉ cs := by
  intro x e he
  obtain ⟨_, t, ht, hn⟩ := ha.new x e he
  rw [hn.edge.destOf_eq]
  exact h t ht

theorem Adding.destOf_eq (ha : Adding n s K s₁ new s₂ N) (h : Consistent n s K) :
    ∀ x, ∀ e ∈ s.grid.current x, s₂.edges.destOf e = s.edges.destOf e := fun x e he =>
  ha.extends_.destOf_eq h.valid (h.edge x e he).2.1

/-- With the nodes all edges to them are removed. -/
theorem Adding.without_eq (ha : Adding n s K s₁ new s₂ N) (h : Consistent n s K)
    (hdest : ∀ t ∈ new, t.destId ∉ cs) (x : Int) :
    without s₂.edges (fun x => s.grid.current x ++ N x) cs.reverse x
      = if x ∈ cs then [] else
        (s.grid.current x).filter (fun e => s.edges.destOf e ∉ cs) ++ N x := by
  simp only [without, List.mem_reverse]
  by_cases hx : x ∈ cs
  · rw [if_pos hx, if_pos hx]
  · rw [if_neg hx, if_neg hx, List.filter_append]
    congr 1
    · exact List.filter_congr fun e he => by rw [ha.destOf_eq h x e he]
    · exact List.filter_eq_self.mpr fun e he => by simpa using ha.dest_notMem hdest x e he

/-- The nodes `cs` of a level are removed after the shortcuts are added. -/
theorem removeNodes_added (h : Consistent n s K) (ha : Adding n s K s₁ new s₂ N)
    (hnodup : cs.Nodup) (hsub : ∀ c ∈ cs, c ∈ uncontracted s)
    (hindep : ∀ c ∈ cs, ∀ e ∈ s.grid.current c, s.edges.destOf e ∉ cs)
    (hstart : ∀ t ∈ new, t.startId ∉ cs) (hdest : ∀ t ∈ new, t.destId ∉ cs) :
    ∃ G' L', cs.reverse.foldlM (DynamicGrid.removeNode s₂.edges) s₂.grid = .ok G' ∧
      G'.allEdgeIds = s₂.grid.allEdgeIds ∧ G'.allEdgeCount = s₂.grid.allEdgeCount ∧
      DynamicGrid.Lists n (fun x => x ∈ uncontracted s ∧ x ∉ cs.reverse) G'.currentEdgeIds
        G'.currentEdgeCount L' ∧
      ∀ x : Int, 0 ≤ x → x < n → (L' x).Perm
        (if x ∈ cs then [] else
          (s.grid.current x).filter (fun e => s.edges.destOf e ∉ cs) ++ N x) := by
  have hold := ha.destOf_eq h
  have hNnil : ∀ c ∈ cs, N c = [] := fun c hc => ha.nil fun t ht he => hstart t ht (he ▸ hc)
  obtain ⟨G', L', hrem, hall, hall', hlists, hperm⟩ := removeNodes_loop (E := s₂.edges) ha.current
    (show cs.reverse.Nodup by rw [List.nodup_reverse]; exact hnodup)
    (fun c hc => h.isNode (hsub c (List.mem_reverse.mp hc)))
    (by
      intro x hx0 hx1 e he
      rcases List.mem_append.mp he with he | he
      · exact (ha.valid.isEdge (ha.extends_.isId (h.edge x e he).2.1)).dest
      · obtain ⟨_, t, _, hn⟩ := ha.new x e he
        rw [hn.edge.destOf_eq]
        exact hn.edge.dest)
    (by
      intro c hc e he
      rw [List.mem_reverse] at hc ⊢
      rw [hNnil c hc, List.append_nil] at he
      rw [hold c e he]
      obtain ⟨hd0, hd1⟩ := h.isNode (h.edge c e he).2.2.2.1
      exact ⟨hd0, hd1, hindep c hc e he⟩)
    (by
      intro c hc x hx0 hx1
      rw [List.mem_reverse] at hc
      have h0 : (N x).countP (fun e => s₂.edges.destOf e = c) = 0 := by
        refine List.countP_eq_zero.mpr ?_
        intro e he heq
        exact ha.dest_notMem hdest x e he (by rw [of_decide_eq_true heq]; exact hc)
      rw [hNnil c hc, List.append_nil, List.countP_append, h0, add_zero]
      have h1 : (s.grid.current x).countP (fun e => s₂.edges.destOf e = c)
          = (s.grid.current x).countP fun e => s.edges.destOf e = c :=
        List.countP_congr fun e he => by rw [hold x e he]
      have h2 : (s.grid.current c).countP (fun e => s₂.edges.destOf e = x)
          = (s.grid.current c).countP fun e => s.edges.destOf e = x :=
        List.countP_congr fun e he => by rw [hold c e he]
      rw [h1, h2]
      exact countP_eq_of_countTo fun d => h.symm x c d)
  refine ⟨G', L', hrem, hall, hall', hlists, ?_⟩
  intro x hx0 hx1
  rw [← ha.without_eq h hdest]
  exact hperm x hx0 hx1

end remove

/-- From a symmetric state `calcNextLvl` does not fail. -/
theorem calcNextLvl_spec (h : Consistent n s K) (lvl : Int) :
    ∃ s' cs new N, calcNextLvl lvl s = .ok s' ∧ LevelStep n lvl s K s' cs new N := by
  obtain ⟨s₁, hsel, hs⟩ := selectNodes_spec h lvl
  generalize hcs : s₁.nodesToCalc = cs at *
  have hsub := hs.subset
  have hindep := hs.indep
  rw [hcs] at hsub hindep
  obtain ⟨threads, hthreads, hnotes⟩ := searches_spec h.searchGraph
    (fun c hc => (⟨hsub c hc, h.mutual c⟩ : c ∈ uncontracted s ∧ _))
  generalize hnew : threads.flatMap CHDijkstra.shortcuts = new at hnotes
  have hends : ∀ t ∈ new, (t.startId ∈ uncontracted s ∧ t.startId ∉ cs) ∧
      t.destId ∈ uncontracted s ∧ t.destId ∉ cs := by
    intro t ht
    obtain ⟨c, hc, hsc⟩ := hnotes.sound t ht
    exact ends_of_isShortcut h hindep hc hsc
  obtain ⟨s₂, N, hadd, ha⟩ := addShortcuts_spec h hs.edges hs.grid hs.known new (by
    intro t ht
    obtain ⟨c, hc, hsc⟩ := hnotes.sound t ht
    exact ⟨(hends t ht).1.1, (hends t ht).2.1,
      h.enough t.startId (List.ne_nil_of_mem hsc.first)⟩)
  have hnodup : cs.Nodup := hcs ▸ hs.nodup
  obtain ⟨G', L', hrem, hall, hall', hlists, hperm⟩ := removeNodes_added h ha hnodup hsub hindep
    (fun t ht => (hends t ht).1.2) (fun t ht => (hends t ht).2.2)
  have hunc : ∀ x, x ∈ uncontracted { s₂ with grid := G' } ↔ x ∈ uncontracted s ∧ x ∉ cs := by
    intro x
    rw [mem_uncontracted]
    simp only
    rw [ha.same.contracted, ← mem_uncontracted, hs.rest, hcs]
  have hNout : ∀ x : Int, ¬ (0 ≤ x ∧ x < n) → N x = [] :=
    fun x hx => ha.nil fun t ht he => hx (h.isNode (he ▸ (hends t ht).1.1))
  refine ⟨{ s₂ with grid := G' }, cs, new, N, ?_, ?_⟩
  · unfold calcNextLvl
    rw [hsel, ok_bind, hs.edges, hs.grid, hcs, hthreads, ok_bind, foldlM_flatMap, hnew, hadd, ok_bind,
      removeNodes, ha.same.nodesToCalc, hcs, hrem, ok_bind]
    rfl
  · refine ⟨⟨s₁, hsel, hcs⟩, hnodup, hsub, hindep, ?_, hunc, ?_, ?_, ?_, ?_, ?_, ?_, hnotes,
      ?_, ha.valid, ha.extends_, ?_, ?_, ?_, ?_, ha.knownLength, ha.known, ha.new, ha.once, ha.cover,
      ha.ids⟩
    · intro hnil
      rw [Finset.eq_empty_iff_forall_notMem]
      intro x hx
      exact hs.first (hcs.trans hnil) x ((h.order x).mpr (h.isNode hx)) hx
    · intro x
      simp only
      rw [ha.same.levels, hs.level, hcs]
    · simp only
      rw [ha.same.nonContractedNum, hs.left, hcs]
    · simp only
      rw [ha.same.calcOrder, hs.order]
    · simp only
      rw [ha.same.contracted, hs.contractedLength]
    · simp only
      rw [ha.same.isNeighbour, hs.markLength]
    · simp only
      rw [ha.same.levels, hs.levelsLength]
    · intro t ht
      obtain ⟨h1, h2⟩ := hends t ht
      exact ⟨(hunc _).mpr h1, (hunc _).mpr h2⟩
    · refine hlists.congr ?_ fun u h0 h1 => hlists.listOf_eq h0 h1
      intro x hx
      obtain ⟨hx1, hx2⟩ := (hunc x).mp hx
      exact ⟨hx1, by rw [List.mem_reverse]; exact hx2⟩
    · have := ha.all
      rw [← hall, ← hall'] at this
      exact this.congr (fun _ hx => hx) fun u h0 h1 => this.listOf_eq h0 h1
    · intro x
      by_cases hx : 0 ≤ x ∧ x < n
      · show (DynamicGrid.listOf G'.currentEdgeIds G'.currentEdgeCount x).Perm _
        rw [hlists.listOf_eq hx.1 hx.2]
        exact hperm x hx.1 hx.2
      · have h1 : s.grid.current x = [] := h.current.listOf_outside hx
        have h2 : DynamicGrid.current G' x = [] := hlists.listOf_outside hx
        simp only [h1, h2, hNout x hx, List.filter_nil, List.append_nil, ite_self, List.Perm.refl]
    · intro x
      have hl := ha.all
      rw [← hall, ← hall'] at hl
      by_cases hx : 0 ≤ x ∧ x < n
      · exact hl.listOf_eq hx.1 hx.2
      · have h1 : s.grid.all x = [] := h.all.listOf_outside hx
        have h2 : DynamicGrid.all G' x = [] := hl.listOf_outside hx
        simp only [h1, h2, hNout x hx, List.append_nil]

/-! ## Both directions of a shortcut -/

/-- No search can stop before it looks at the edges of a node of `cs` that it
needs: where an edge of the length 0 ends a shortest way over the node, the
node is not `Crowded`. -/
def Settles (s : LabelCreator) (cs : List Int) : Prop :=
  ∀ c ∈ cs, ∀ u w, w ≠ u → ∀ e ∈ s.grid.current u, s.edges.destOf e = c →
    ∀ e' ∈ s.grid.current c, s.edges.destOf e' = w →
    IsDist (CHDijkstra.Adj s.edges s.grid.current) u w (s.edges.distOf e + s.edges.distOf e') →
    0 < s.edges.distOf e' ∨
      ¬ CHDijkstra.Crowded s.edges s.grid.current c u (s.edges.distOf e)

variable {lvl : Int} {s' : LabelCreator} {cs : List Int} {new : List Shortcut}
  {N : Int → List Int}

/-- With a shortcut its other direction is noted too. -/
theorem LevelStep.notes_symm (hs : LevelStep n lvl s K s' cs new N) (h : Consistent n s K)
    (hset : Settles s cs) {t : Shortcut} (ht : t ∈ new) :
    ∃ t' ∈ new, t'.startId = t.destId ∧ t'.destId = t.startId ∧ t'.distance = t.distance := by
  obtain ⟨c, hc, hsc⟩ := hs.notes.sound t ht
  -- the same way backwards
  obtain ⟨e, he, hec, hel⟩ := h.back hsc.second
  obtain ⟨e', he', hew, hel'⟩ := h.back hsc.first
  rw [hsc.second_dest] at he
  rw [hsc.first_dest] at he'
  have hdist : IsDist (CHDijkstra.Adj s.edges s.grid.current) t.destId t.startId
      (s.edges.distOf e + s.edges.distOf e') := by
    rw [hel, hel', add_comm, ← hsc.length]
    exact hsc.dist.symm h.adj_symm
  obtain ⟨t', ht', h1, h2⟩ := hs.notes.complete c hc t.destId t.startId hsc.ne e he hec e' he' hew
    hdist (hset c hc t.destId t.startId hsc.ne e he hec e' he' hew hdist)
  obtain ⟨c', _, hsc'⟩ := hs.notes.sound t' ht'
  refine ⟨t', ht', h1, h2, ?_⟩
  have hd := hsc'.dist
  rw [h1, h2] at hd
  exact hd.unique (hsc.dist.symm h.adj_symm)

theorem countTo_le_one {E : Edges} {l : List Int}
    (h : l.Pairwise fun e e' => E.destOf e ≠ E.destOf e') (w d : Int) : countTo E l w d ≤ 1 := by
  induction l with
  | nil => simp [countTo]
  | cons e l ih =>
    obtain ⟨hhead, htail⟩ := List.pairwise_cons.mp h
    have ih := ih htail
    rw [countTo, List.countP_cons]
    by_cases he : E.destOf e = w ∧ E.distOf e = d
    · have hzero : l.countP (fun e => E.destOf e = w ∧ E.distOf e = d) = 0 := by
        refine List.countP_eq_zero.mpr ?_
        intro e' he' heq
        exact hhead e' he' (by rw [he.1, (of_decide_eq_true heq).1])
      rw [hzero]
      simp [he]
    · rw [countTo] at ih
      simp only [he, decide_false, Bool.false_eq_true, if_false, add_zero]
      exact ih

/-- The new edges in one direction have an equal partner in the other. -/
theorem LevelStep.new_symm (hs : LevelStep n lvl s K s' cs new N) (h : Consistent n s K)
    (hset : Settles s cs) {u w d : Int} (hpos : 0 < countTo s'.edges (N u) w d) :
    0 < countTo s'.edges (N w) u d := by
  obtain ⟨e, he, heq⟩ := List.countP_pos_iff.mp hpos
  obtain ⟨hew, hed⟩ := of_decide_eq_true heq
  obtain ⟨_, t, ht, hn⟩ := hs.new_ u e he
  rw [hn.edge.destOf_eq] at hew
  rw [hn.edge.distOf_eq] at hed
  obtain ⟨t', ht', h1, h2, h3⟩ := hs.notes_symm h hset ht
  rw [hew] at h1
  rw [hn.start] at h2
  have hK : ¬ K t'.startId t'.destId := by
    rw [h1, h2]
    intro hK
    exact hn.unknown (hew ▸ h.known_symm w u hK)
  obtain ⟨e', he', hdest⟩ := hs.cover t' ht' hK
  rw [h1] at he'
  rw [h2] at hdest
  refine List.countP_pos_iff.mpr ⟨e', he', decide_eq_true ⟨hdest, ?_⟩⟩
  -- the edge may come from another shortcut of the pair, with the same distance
  obtain ⟨_, t'', ht'', hn''⟩ := hs.new_ w e' he'
  rw [hn''.edge.destOf_eq] at hdest
  obtain ⟨c', _, hsc'⟩ := hs.notes.sound t' ht'
  obtain ⟨c'', _, hsc''⟩ := hs.notes.sound t'' ht''
  have hd' := hsc'.dist
  have hd'' := hsc''.dist
  rw [h1, h2, h3, hed] at hd'
  rw [hn''.start, hdest] at hd''
  rw [hn''.edge.distOf_eq]
  exact hd''.unique hd'

theorem countTo_eq_of_le_one {a b : Nat} (ha : a ≤ 1) (hb : b ≤ 1) (hab : 0 < a → 0 < b)
    (hba : 0 < b → 0 < a) : a = b := by
  omega

/-- The current edges between two nodes that stay: the old ones and the new
ones. -/
theorem LevelStep.countTo_current (hs : LevelStep n lvl s K s' cs new N) (h : Consistent n s K)
    {u w : Int} (hu : u ∉ cs) (hw : w ∉ cs) (d : Int) :
    countTo s'.edges (s'.grid.current u) w d
      = countTo s.edges (s.grid.current u) w d + countTo s'.edges (N u) w d := by
  have hperm := hs.current u
  rw [if_neg hu] at hperm
  rw [countTo, hperm.countP_eq, List.countP_append]
  congr 1
  rw [List.countP_filter, countTo]
  refine List.countP_congr fun e he => ?_
  have hid := (h.edge u e he).2.1
  rw [hs.extends_.destOf_eq h.valid hid, hs.extends_.distOf_eq h.valid hid]
  by_cases hew : s.edges.destOf e = w
  · simp [hew, hw]
  · simp [hew]

/-- Every current edge joins two nodes that stay. -/
theorem LevelStep.edge_current (hs : LevelStep n lvl s K s' cs new N) (h : Consistent n s K)
    {u e : Int} (he : e ∈ s'.grid.current u) :
    u ∈ uncontracted s' ∧ s'.edges.IsId e ∧ s'.edges.startOf e = u ∧
      s'.edges.destOf e ∈ uncontracted s' ∧ s'.edges.destOf e ≠ u ∧ 0 ≤ s'.edges.distOf e := by
  have hmem := (hs.current u).mem_iff.mp he
  have hnot : u ∉ cs := by
    intro hu
    rw [if_pos hu] at hmem
    simp at hmem
  rw [if_neg hnot] at hmem
  rcases List.mem_append.mp hmem with hmem | hmem
  · obtain ⟨hcur, hdest⟩ := List.mem_filter.mp hmem
    obtain ⟨h1, h2, h3, h4, h5, h6⟩ := h.edge u e hcur
    rw [hs.extends_.startOf_eq h.valid h2, hs.extends_.destOf_eq h.valid h2,
      hs.extends_.distOf_eq h.valid h2]
    exact ⟨(hs.rest u).mpr ⟨h1, hnot⟩, hs.extends_.isId h2, h3,
      (hs.rest _).mpr ⟨h4, of_decide_eq_true hdest⟩, h5, h6⟩
  · obtain ⟨_, t, ht, hn⟩ := hs.new_ u e hmem
    obtain ⟨c, _, hsc⟩ := hs.notes.sound t ht
    obtain ⟨h1, h2⟩ := hs.ends t ht
    rw [hn.edge.startOf_eq, hn.edge.destOf_eq, hn.edge.distOf_eq]
    refine ⟨hn.start ▸ h1, ⟨hn.edge.nonneg, hn.edge.lt_next⟩, rfl, h2, ?_, ?_⟩
    · rw [← hn.start]
      exact Ne.symm hsc.ne
    · have h3 := h.searchGraph.nonneg _ _ hsc.first
      have h4 := h.searchGraph.nonneg _ _ hsc.second
      have h5 := hsc.length
      omega

theorem LevelStep.consistent (hs : LevelStep n lvl s K s' cs new N) (h : Consistent n s K)
    (hset : Settles s cs) :
    Consistent n s' (fun u w => K u w ∨ ∃ t ∈ new, t.startId = u ∧ t.destId = w) where
  small := h.small
  valid := hs.valid
  current := hs.lists
  all := hs.allLists
  contractedLength := hs.contractedLength
  levelsLength := hs.levelsLength
  markLength := hs.markLength
  knownLength := hs.knownLength
  order := by
    rw [hs.order]
    exact h.order
  left := by
    have hunc : uncontracted s' = uncontracted s \ cs.toFinset := by
      ext x
      rw [hs.rest, Finset.mem_sdiff, List.mem_toFinset]
    have hsub : cs.toFinset ⊆ uncontracted s := by
      intro x hx
      exact hs.subset x (List.mem_toFinset.mp hx)
    have hcard := Finset.card_le_card hsub
    rw [hs.left, h.left, hunc, Finset.card_sdiff_of_subset hsub]
    rw [List.toFinset_card_of_nodup hs.nodup] at hcard ⊢
    omega
  edge := fun u e he => hs.edge_current h he
  symm := by
    intro u w d
    have hzero : ∀ u w, u ∈ cs → countTo s'.edges (s'.grid.current u) w d = 0 ∧
        countTo s'.edges (s'.grid.current w) u d = 0 := by
      intro u w hu
      constructor
      · have := hs.current u
        rw [if_pos hu] at this
        rw [this.eq_nil]
        rfl
      · refine List.countP_eq_zero.mpr ?_
        intro e he heq
        have hdest := (hs.edge_current h he).2.2.2.1
        rw [(of_decide_eq_true heq).1] at hdest
        exact ((hs.rest u).mp hdest).2 hu
    by_cases hu : u ∈ cs
    · rw [(hzero u w hu).1, (hzero u w hu).2]
    · by_cases hw : w ∈ cs
      · rw [(hzero w u hw).1, (hzero w u hw).2]
      · rw [hs.countTo_current h hu hw, hs.countTo_current h hw hu, h.symm]
        congr 1
        exact countTo_eq_of_le_one (countTo_le_one (hs.once u) w d) (countTo_le_one (hs.once w) u d)
          (hs.new_symm h hset) (hs.new_symm h hset)
  enough := by
    intro u hne
    rw [hs.extends_.orig]
    obtain ⟨e, he⟩ := List.exists_mem_of_ne_nil _ hne
    have hmem := (hs.current u).mem_iff.mp he
    split_ifs at hmem with hu
    · simp at hmem
    · rcases List.mem_append.mp hmem with hmem | hmem
      · exact h.enough u (List.ne_nil_of_mem (List.mem_of_mem_filter hmem))
      · obtain ⟨_, t, ht, _⟩ := hs.new_ u e hmem
        obtain ⟨c, _, hsc⟩ := hs.notes.sound t ht
        exact h.enough _ (List.ne_nil_of_mem hsc.first)
  known := hs.known
  known_symm := by
    rintro u w (hK | ⟨t, ht, rfl, rfl⟩)
    · exact Or.inl (h.known_symm u w hK)
    · obtain ⟨t', ht', h1, h2, _⟩ := hs.notes_symm h hset ht
      exact Or.inr ⟨t', ht', h1, h2⟩

end LabelCreator

end SeaRouter
