import SeaRouter.HubLabelCreation.Contraction

/-!
# The runs of `calculateCH`

An `InputGraph` is a graph as it stands in `Edges` and `DynamicGrid` before the
contraction.  `Reached` are the states between two levels.

* `Consistent` holds in every state up to which no search could stop too early
  (`SettlesAt`), and so `calcNextLvl` does not fail there.  With positive
  lengths no search ever does.
* `Hierarchy` is what a run keeps with positive lengths: the distances between
  the uncontracted nodes are those of the input graph, each shortcut is the
  sum of two older edges that meet in a node contracted earlier than both of
  its ends, and each contracted node has an edge that begins a shortest way to
  any node that is contracted later.
-/

namespace SeaRouter

open Java WGraph

/-- The arrays of `Edges` and `DynamicGrid` before the contraction. -/
structure InputGraph where
  start : List Int
  dest : List Int
  dist : List Int
  rows : List (List Int)
  counts : List Int
deriving DecidableEq, Repr

namespace InputGraph

def edges (I : InputGraph) : Edges :=
  Edges.initializeForShortcutEdges I.start I.dest I.dist I.dest.length

def grid (I : InputGraph) : DynamicGrid := DynamicGrid.initializeEdges I.rows I.counts

/-- An undirected graph with the nodes `0` to `n - 1`: the rows list the edges
of each node, and as many edges of each length lead from `u` to `w` as back. -/
structure Undirected (I : InputGraph) (n : Nat) : Prop where
  small : (n : Int) ≤ MAX_VALUE
  startLength : I.start.length = I.dest.length
  distLength : I.dist.length = I.dest.length
  lists : DynamicGrid.Lists n (fun _ => True) I.rows I.counts I.grid.current
  rows_iff : ∀ u e : Int, e ∈ I.grid.current u ↔
    0 ≤ e ∧ e < I.dest.length ∧ I.edges.startOf e = u
  node : ∀ e : Int, 0 ≤ e → e < I.dest.length →
    0 ≤ I.edges.destOf e ∧ I.edges.destOf e < n ∧ I.edges.destOf e ≠ I.edges.startOf e
  symm : ∀ u w d, LabelCreator.countTo I.edges (I.grid.current u) w d
    = LabelCreator.countTo I.edges (I.grid.current w) u d

/-- The lengths are not negative. -/
def Nonneg (I : InputGraph) : Prop := ∀ l ∈ I.dist, 0 ≤ l

/-- The lengths are positive. -/
def Positive (I : InputGraph) : Prop := ∀ l ∈ I.dist, 0 < l

instance (I : InputGraph) : Decidable I.Nonneg := inferInstanceAs (Decidable (∀ l ∈ I.dist, 0 ≤ l))

instance (I : InputGraph) : Decidable I.Positive :=
  inferInstanceAs (Decidable (∀ l ∈ I.dist, 0 < l))

/-- No two edges join the same two nodes. -/
def Simple (I : InputGraph) : Prop := ∀ u, ((I.grid.current u).map I.edges.destOf).Nodup

/-- The edges of the graph, between the nodes. -/
def Adj (I : InputGraph) : Int → Int → Int → Prop := CHDijkstra.Adj I.edges I.grid.current

theorem Positive.nonneg {I : InputGraph} (h : I.Positive) : I.Nonneg :=
  fun l hl => le_of_lt (h l hl)

/-- The undirected graph with the given edges, its arcs sorted by their start
and with room for four edges in each row. -/
def ofEdges (n : Nat) (es : List (Int × Int × Int)) : InputGraph :=
  let arcs := es.flatMap fun e => [(e.1, e.2.1, e.2.2), (e.2.1, e.1, e.2.2)]
  let sorted := (List.range n).flatMap fun u => arcs.filter fun a => a.1 = (u : Int)
  let rows := (List.range n).map fun u =>
    (sorted.zipIdx.filter fun a => a.1.1 = (u : Int)).map fun a => (a.2 : Int)
  { start := sorted.map fun a => a.1
    dest := sorted.map fun a => a.2.1
    dist := sorted.map fun a => a.2.2
    rows := rows.map fun row => row ++ List.replicate (4 - row.length) 0
    counts := rows.map fun row => (row.length : Int) }

/-- The finitely many facts that make a graph undirected. -/
structure Checked (I : InputGraph) (n : Nat) : Prop where
  small : (n : Int) ≤ MAX_VALUE
  startLength : I.start.length = I.dest.length
  distLength : I.dist.length = I.dest.length
  rowsLength : I.rows.length = n
  countsLength : I.counts.length = n
  row : ∀ u ∈ List.range n, 0 ≤ I.counts.getD u 0 ∧
    I.counts.getD u 0 ≤ (I.rows.getD u []).length ∧ I.rows.getD u [] ≠ []
  own : ∀ u ∈ List.range n, ∀ e ∈ I.grid.current u,
    0 ≤ e ∧ e < I.dest.length ∧ I.edges.startOf e = u
  arc : ∀ e ∈ List.range I.dest.length, (e : Int) ∈ I.grid.current (I.edges.startOf e) ∧
    0 ≤ I.edges.destOf e ∧ I.edges.destOf e < n ∧ I.edges.destOf e ≠ I.edges.startOf e
  symm : ∀ u ∈ List.range n, ∀ w ∈ List.range n, ∀ d ∈ I.dist.dedup,
    LabelCreator.countTo I.edges (I.grid.current u) w d
      = LabelCreator.countTo I.edges (I.grid.current w) u d

instance (I : InputGraph) (n : Nat) : Decidable (I.Checked n) :=
  decidable_of_iff ((n : Int) ≤ MAX_VALUE ∧ I.start.length = I.dest.length ∧
    I.dist.length = I.dest.length ∧ I.rows.length = n ∧ I.counts.length = n ∧
    (∀ u ∈ List.range n, 0 ≤ I.counts.getD u 0 ∧
      I.counts.getD u 0 ≤ (I.rows.getD u []).length ∧ I.rows.getD u [] ≠ []) ∧
    (∀ u ∈ List.range n, ∀ e ∈ I.grid.current u,
      0 ≤ e ∧ e < I.dest.length ∧ I.edges.startOf e = u) ∧
    (∀ e ∈ List.range I.dest.length, (e : Int) ∈ I.grid.current (I.edges.startOf e) ∧
      0 ≤ I.edges.destOf e ∧ I.edges.destOf e < n ∧ I.edges.destOf e ≠ I.edges.startOf e) ∧
    ∀ u ∈ List.range n, ∀ w ∈ List.range n, ∀ d ∈ I.dist.dedup,
      LabelCreator.countTo I.edges (I.grid.current u) w d
        = LabelCreator.countTo I.edges (I.grid.current w) u d)
    ⟨fun ⟨h1, h2, h3, h4, h5, h6, h7, h8, h9⟩ => ⟨h1, h2, h3, h4, h5, h6, h7, h8, h9⟩,
      fun ⟨h1, h2, h3, h4, h5, h6, h7, h8, h9⟩ => ⟨h1, h2, h3, h4, h5, h6, h7, h8, h9⟩⟩

variable {I : InputGraph} {n : Nat}

theorem Checked.lists (h : I.Checked n) :
    DynamicGrid.Lists n (fun _ => True) I.rows I.counts I.grid.current := by
  refine ⟨h.rowsLength, h.countsLength, ?_⟩
  intro u h0 h1
  obtain ⟨k, rfl⟩ : ∃ k : Nat, u = k := ⟨u.toNat, by omega⟩
  have hk : k < n := by omega
  obtain ⟨hc0, hc1, hne⟩ := h.row k (List.mem_range.mpr hk)
  have hrow : rd I.rows (k : Int) = .ok (I.rows.getD k []) := by
    refine rd_of_getElem? ?_
    rw [List.getD_eq_getElem?_getD, List.getElem?_eq_getElem (by rw [h.rowsLength]; exact hk)]
    rfl
  have hcount : rd I.counts (k : Int) = .ok (I.counts.getD k 0) := by
    refine rd_of_getElem? ?_
    rw [List.getD_eq_getElem?_getD, List.getElem?_eq_getElem (by rw [h.countsLength]; exact hk)]
    rfl
  have hcur : I.grid.current k = (I.rows.getD k []).take (I.counts.getD k 0).toNat := by
    show DynamicGrid.listOf I.rows I.counts k = _
    rw [DynamicGrid.listOf, hrow, hcount]
  refine ⟨(I.rows.getD k []).drop (I.counts.getD k 0).toNat, ?_, ?_, fun _ => ?_⟩
  · rw [hcur, List.take_append_drop]
    exact hrow
  · rw [hcur, hcount, List.length_take, Nat.min_eq_left (by omega), Int.toNat_of_nonneg hc0]
  · rw [hcur, List.take_append_drop]
    exact hne

theorem Checked.undirected (h : I.Checked n) : I.Undirected n := by
  have hnode : ∀ u : Int, I.grid.current u ≠ [] → 0 ≤ u ∧ u < n := by
    intro u hne
    by_contra hu
    exact hne (h.lists.listOf_outside hu)
  have hrange : ∀ {m : Nat} {u : Int}, 0 ≤ u → u < m → ∃ k ∈ List.range m, u = (k : Int) :=
    fun {m u} h0 h1 => ⟨u.toNat, List.mem_range.mpr (by omega), by omega⟩
  have hown : ∀ u : Int, ∀ e ∈ I.grid.current u,
      0 ≤ e ∧ e < I.dest.length ∧ I.edges.startOf e = u := by
    intro u e he
    obtain ⟨h0, h1⟩ := hnode u (List.ne_nil_of_mem he)
    obtain ⟨k, hk, rfl⟩ := hrange h0 h1
    exact h.own k hk e he
  have harc : ∀ e : Int, 0 ≤ e → e < I.dest.length → e ∈ I.grid.current (I.edges.startOf e) ∧
      0 ≤ I.edges.destOf e ∧ I.edges.destOf e < n ∧ I.edges.destOf e ≠ I.edges.startOf e := by
    intro e h0 h1
    obtain ⟨k, hk, rfl⟩ := hrange h0 h1
    exact h.arc k hk
  have hvalid : I.edges.Valid := Edges.initialize_valid h.startLength rfl h.distLength
  have hdist : ∀ u : Int, ∀ e ∈ I.grid.current u, I.edges.distOf e ∈ I.dist := by
    intro u e he
    obtain ⟨h0, h1, _⟩ := hown u e he
    have hd := (hvalid.isEdge ⟨h0, h1⟩).dist
    have hlt : e < I.edges.numOfOriginalEdges := h1
    rw [Edges.getDist, if_pos hlt] at hd
    exact mem_of_rd hd
  -- outside of the checked ranges nothing is counted
  have hzero : ∀ u w d : Int, ¬ ((0 ≤ u ∧ u < n) ∧ (0 ≤ w ∧ w < n) ∧ d ∈ I.dist) →
      LabelCreator.countTo I.edges (I.grid.current u) w d = 0 := by
    intro u w d hout
    refine List.countP_eq_zero.mpr ?_
    intro e he heq
    obtain ⟨h1, h2⟩ := of_decide_eq_true heq
    obtain ⟨hs0, hs1, _⟩ := hown u e he
    obtain ⟨_, hd0, hd1, _⟩ := harc e hs0 hs1
    rw [h1] at hd0 hd1
    exact hout ⟨hnode u (List.ne_nil_of_mem he), ⟨hd0, hd1⟩, h2 ▸ hdist u e he⟩
  refine ⟨h.small, h.startLength, h.distLength, h.lists, ?_, fun e h0 h1 => (harc e h0 h1).2, ?_⟩
  · intro u e
    constructor
    · exact hown u e
    · rintro ⟨h0, h1, rfl⟩
      exact (harc e h0 h1).1
  · intro u w d
    by_cases hin : (0 ≤ u ∧ u < n) ∧ (0 ≤ w ∧ w < n) ∧ d ∈ I.dist
    · obtain ⟨⟨hu0, hu1⟩, ⟨hw0, hw1⟩, hd⟩ := hin
      obtain ⟨k, hk, rfl⟩ := hrange hu0 hu1
      obtain ⟨m, hm, rfl⟩ := hrange hw0 hw1
      exact h.symm k hk m hm d (List.mem_dedup.mpr hd)
    · rw [hzero u w d hin, hzero w u d fun hin' => hin ⟨hin'.2.1, hin'.1, hin'.2.2⟩]

theorem Checked.simple (h : I.Checked n)
    (hs : ∀ u ∈ List.range n, ((I.grid.current u).map I.edges.destOf).Nodup) : I.Simple := by
  intro u
  by_cases hu : 0 ≤ u ∧ u < n
  · obtain ⟨k, rfl⟩ : ∃ k : Nat, u = k := ⟨u.toNat, by omega⟩
    exact hs k (List.mem_range.mpr (by omega))
  · have : I.grid.current u = [] := h.lists.listOf_outside hu
    rw [this]
    exact List.nodup_nil

theorem Undirected.valid (h : I.Undirected n) : I.edges.Valid :=
  Edges.initialize_valid h.startLength rfl h.distLength

theorem Undirected.isId_iff (_ : I.Undirected n) {e : Int} :
    I.edges.IsId e ↔ 0 ≤ e ∧ e < I.dest.length := Iff.rfl

/-- The length of an edge is one of the given lengths. -/
theorem Undirected.distOf_mem (h : I.Undirected n) {e : Int} (h0 : 0 ≤ e)
    (h1 : e < I.dest.length) : I.edges.distOf e ∈ I.dist := by
  have hd := (h.valid.isEdge (h.isId_iff.mpr ⟨h0, h1⟩)).dist
  have hlt : e < I.edges.numOfOriginalEdges := h1
  rw [Edges.getDist, if_pos hlt] at hd
  exact mem_of_rd hd

end InputGraph

namespace LabelCreator

variable {I : InputGraph} {n : Nat} {calcOrder : List Int}

theorem uncontracted_start (E : Edges) (G : DynamicGrid) (n : Nat) (calcOrder : List Int)
    (u : Int) : u ∈ uncontracted (start E G n calcOrder) ↔ 0 ≤ u ∧ u < n := by
  rw [mem_uncontracted]
  constructor
  · intro h
    simpa [start] using rd_bounds h
  · rintro ⟨h0, h1⟩
    obtain ⟨b, hb⟩ := exists_rd h0 (a := List.replicate n false) (by simpa using h1)
    rw [show (start E G n calcOrder).contracted = List.replicate n false from rfl, hb,
      List.eq_of_mem_replicate (mem_of_rd hb)]

theorem card_uncontracted_start (E : Edges) (G : DynamicGrid) (n : Nat) (calcOrder : List Int) :
    (uncontracted (start E G n calcOrder)).card = n := by
  have hall : ((Finset.range n).filter fun i => (List.replicate n false)[i]? = some false)
      = Finset.range n := by
    refine Finset.filter_true_of_mem ?_
    intro i hi
    rw [List.getElem?_replicate, if_pos (Finset.mem_range.mp hi)]
  rw [uncontracted]
  simp only [start, List.length_replicate]
  rw [hall, Finset.card_image_of_injective _ Nat.cast_injective, Finset.card_range]

/-- The state with which `calculateCH` begins. -/
theorem start_consistent (h : I.Undirected n) (hnn : I.Nonneg)
    (horder : ∀ u : Int, u ∈ calcOrder ↔ 0 ≤ u ∧ u < n) :
    Consistent n (start I.edges I.grid n calcOrder) (fun _ _ => False) where
  small := h.small
  valid := h.valid
  current := h.lists.congr (fun _ _ => trivial) (fun _ _ _ => rfl)
  all := h.lists
  contractedLength := by simp [start]
  levelsLength := by simp [start]
  markLength := by simp [start]
  knownLength := by simp [start]
  order := horder
  left := by
    rw [card_uncontracted_start]
    rfl
  edge := by
    intro u e he
    have he' : e ∈ I.grid.current u := he
    obtain ⟨h0, h1, hs⟩ := (h.rows_iff u e).mp he'
    obtain ⟨hd0, hd1, hne⟩ := h.node e h0 h1
    simp only [uncontracted_start]
    refine ⟨?_, ⟨h0, h1⟩, hs, ⟨hd0, hd1⟩, hs ▸ hne, hnn _ (h.distOf_mem h0 h1)⟩
    by_contra hu
    have : I.grid.current u = [] := h.lists.listOf_outside hu
    rw [this] at he'
    simp at he'
  symm := h.symm
  enough := by
    intro u hne
    obtain ⟨e, he⟩ := List.exists_mem_of_ne_nil _ hne
    have he' : e ∈ I.grid.current u := he
    obtain ⟨h0, h1, hs⟩ := (h.rows_iff u e).mp he'
    obtain ⟨_, _, hloop⟩ := h.node e h0 h1
    -- the edge back is another edge
    have hpos : 0 < countTo I.edges (I.grid.current u) (I.edges.destOf e) (I.edges.distOf e) :=
      List.countP_pos_iff.mpr ⟨e, he', by simp⟩
    rw [h.symm] at hpos
    obtain ⟨e', hmem, _⟩ := List.countP_pos_iff.mp hpos
    obtain ⟨h0', h1', hs'⟩ := (h.rows_iff _ _).mp hmem
    have hee : e ≠ e' := by
      rintro rfl
      exact hloop hs'.symm
    show 2 ≤ ((I.dest.length : Nat) : Int)
    omega
  known := by
    intro u h0 h1
    obtain ⟨set, hset⟩ := exists_rd h0 (a := List.replicate n (IntArraySet.new 1 20))
      (by simpa using h1)
    refine ⟨set, hset, ?_⟩
    rw [List.eq_of_mem_replicate (mem_of_rd hset)]
    exact IntArraySet.new_holds 1 (by decide)
  known_symm := fun _ _ hf => hf

/-- The states `s` before `calcNextLvl(lvl)` in the run of `calculateCH`.  Each
state before was one of `ok`. -/
inductive Reached (ok : Int → LabelCreator → Prop) (I : InputGraph) (n : Nat)
    (calcOrder : List Int) : LabelCreator → Int → Prop
  | start : Reached ok I n calcOrder (start I.edges I.grid n calcOrder) 0
  | level {s s' : LabelCreator} {lvl : Int} : Reached ok I n calcOrder s lvl → ok lvl s →
      0 < s.nonContractedNum → calcNextLvl lvl s = .ok s' → Reached ok I n calcOrder s' (lvl + 1)

/-- No search of the level can stop too early. -/
def SettlesAt (lvl : Int) (s : LabelCreator) : Prop :=
  ∀ s₁, selectNodes lvl s = .ok s₁ → Settles s s₁.nodesToCalc

theorem Reached.consistent (h : I.Undirected n) (hnn : I.Nonneg)
    (horder : ∀ u : Int, u ∈ calcOrder ↔ 0 ≤ u ∧ u < n) {s : LabelCreator} {lvl : Int}
    (hr : Reached SettlesAt I n calcOrder s lvl) : ∃ K, Consistent n s K := by
  induction hr with
  | start => exact ⟨_, start_consistent h hnn horder⟩
  | @level s s' lvl _ hset _ hrun ih =>
    obtain ⟨K, hc⟩ := ih
    obtain ⟨s'', cs, new, N, hrun', hs⟩ := calcNextLvl_spec hc lvl
    rw [hrun, Except.ok.injEq] at hrun'
    subst hrun'
    obtain ⟨s₁, hsel, rfl⟩ := hs.picked
    exact ⟨_, hs.consistent hc (hset s₁ hsel)⟩

/-! ## Positive lengths -/

section positive

variable {s s' : LabelCreator} {K : Int → Int → Prop} {lvl : Int} {cs : List Int}
  {new : List Shortcut} {N : Int → List Int}

/-- The graph in which the next level is contracted. -/
def Cur (s : LabelCreator) : Int → Int → Int → Prop := CHDijkstra.Adj s.edges s.grid.current

/-- The edges of each pair in `alreadyShortcut` that is still there contain one
of the exact distance. -/
def KnownExact (s : LabelCreator) (K : Int → Int → Prop) : Prop :=
  ∀ u w, K u w → u ∈ uncontracted s → w ∈ uncontracted s → ∃ d, IsDist (Cur s) u w d ∧ Cur s u w d

theorem settles_of_pos (hpos : ∀ u v l, Cur s u v l → 0 < l) (cs : List Int) : Settles s cs :=
  fun c _ _ w _ _ _ _ e' he' hew _ => Or.inl (hpos c w _ ⟨e', he', hew, rfl⟩)

/-- An edge between two nodes that stay is kept. -/
theorem LevelStep.keep (hs : LevelStep n lvl s K s' cs new N) (h : Consistent n s K) {u w d : Int}
    (hu : u ∉ cs) (hw : w ∉ cs) (hadj : Cur s u w d) : Cur s' u w d := by
  obtain ⟨e, he, rfl, rfl⟩ := hadj
  have hid := (h.edge u e he).2.1
  refine ⟨e, ?_, hs.extends_.destOf_eq h.valid hid, hs.extends_.distOf_eq h.valid hid⟩
  rw [(hs.current u).mem_iff, if_neg hu]
  exact List.mem_append_left _ (List.mem_filter.mpr ⟨he, decide_eq_true hw⟩)

/-- A pair that was noted in this level and was not known before has its edge,
with the exact distance. -/
theorem LevelStep.added (hs : LevelStep n lvl s K s' cs new N) {t : Shortcut} (ht : t ∈ new)
    (hK : ¬ K t.startId t.destId) : Cur s' t.startId t.destId t.distance := by
  obtain ⟨e, he, hdest⟩ := hs.cover t ht hK
  obtain ⟨_, t', ht', hn⟩ := hs.new_ _ e he
  refine ⟨e, ?_, hdest, ?_⟩
  · rw [(hs.current _).mem_iff, if_neg ((hs.rest _).mp (hs.ends t ht).1).2]
    exact List.mem_append_right _ he
  · -- the edge may come from another shortcut of the pair
    rw [hn.edge.destOf_eq] at hdest
    rw [hn.edge.distOf_eq]
    obtain ⟨_, _, hsc⟩ := hs.notes.sound t ht
    obtain ⟨_, _, hsc'⟩ := hs.notes.sound t' ht'
    have hd := hsc'.dist
    rw [hn.start, hdest] at hd
    exact hd.unique hsc.dist

/-- An edge of the next graph is a walk of the current one. -/
theorem LevelStep.walk (hs : LevelStep n lvl s K s' cs new N) (h : Consistent n s K) {u w d : Int}
    (hadj : Cur s' u w d) : Walk (Cur s) u w d := by
  obtain ⟨e, he, rfl, rfl⟩ := hadj
  have hmem := (hs.current u).mem_iff.mp he
  split_ifs at hmem with hu
  · simp at hmem
  · rcases List.mem_append.mp hmem with hmem | hmem
    · have hcur := List.mem_of_mem_filter hmem
      have hid := (h.edge u e hcur).2.1
      rw [hs.extends_.destOf_eq h.valid hid, hs.extends_.distOf_eq h.valid hid]
      exact Walk.single ⟨e, hcur, rfl, rfl⟩
    · obtain ⟨_, t, ht, hn⟩ := hs.new_ u e hmem
      obtain ⟨c, _, hsc⟩ := hs.notes.sound t ht
      rw [hn.edge.destOf_eq, hn.edge.distOf_eq, ← hn.start]
      exact hsc.dist.1

/-- Contracting a level keeps the distances between the nodes that stay. -/
theorem LevelStep.isDist_iff (hs : LevelStep n lvl s K s' cs new N) (h : Consistent n s K)
    (hpos : ∀ u v l, Cur s u v l → 0 < l) (hK : KnownExact s K) {u w : Int}
    (hu : u ∈ uncontracted s') (hw : w ∈ uncontracted s') (d : Int) :
    IsDist (Cur s) u w d ↔ IsDist (Cur s') u w d := by
  have hindep : ∀ u v l, Cur s u v l → u ∈ cs → v ∉ cs := by
    rintro u v l ⟨e, he, rfl, rfl⟩ hu
    exact hs.indep u hu e he
  refine isDist_contract (C := (· ∈ cs)) hpos hindep ?_ ?_ ?_ ((hs.rest u).mp hu).2
    ((hs.rest w).mp hw).2 d
  · intro u v l hadj hu hv
    exact hs.keep h hu hv hadj
  · intro u c w a b hc huc hcw hne hd
    have hu : u ∉ cs := fun hu => hindep u c a huc hu hc
    have hw : w ∉ cs := hindep c w b hcw hc
    obtain ⟨e, he, hec, rfl⟩ := huc
    obtain ⟨e', he', hew, rfl⟩ := hcw
    obtain ⟨t, ht, rfl, rfl⟩ := hs.notes.complete c hc u w (Ne.symm hne) e he hec e' he' hew hd
      (Or.inl (hpos c w _ ⟨e', he', hew, rfl⟩))
    by_cases hknown : K t.startId t.destId
    · obtain ⟨d', hd', hadj⟩ := hK _ _ hknown ((hs.rest _).mp (hs.ends t ht).1).1
        ((hs.rest _).mp (hs.ends t ht).2).1
      rw [hd.unique hd']
      exact hs.keep h hu hw hadj
    · have hadd := hs.added ht hknown
      obtain ⟨_, _, hsc⟩ := hs.notes.sound t ht
      rwa [hsc.dist.unique hd] at hadd
  · intro u v l hadj
    exact hs.walk h hadj

theorem LevelStep.knownExact (hs : LevelStep n lvl s K s' cs new N) (h : Consistent n s K)
    (hpos : ∀ u v l, Cur s u v l → 0 < l) (hK : KnownExact s K) :
    KnownExact s' (fun u w => K u w ∨ ∃ t ∈ new, t.startId = u ∧ t.destId = w) := by
  have hold : ∀ u w, K u w → u ∈ uncontracted s' → w ∈ uncontracted s' →
      ∃ d, IsDist (Cur s') u w d ∧ Cur s' u w d := by
    intro u w hknown hu hw
    obtain ⟨hu1, hu2⟩ := (hs.rest u).mp hu
    obtain ⟨hw1, hw2⟩ := (hs.rest w).mp hw
    obtain ⟨d, hd, hadj⟩ := hK u w hknown hu1 hw1
    exact ⟨d, (hs.isDist_iff h hpos hK hu hw d).mp hd, hs.keep h hu2 hw2 hadj⟩
  rintro u w (hknown | ⟨t, ht, rfl, rfl⟩) hu hw
  · exact hold u w hknown hu hw
  · by_cases hknown : K t.startId t.destId
    · exact hold _ _ hknown hu hw
    · obtain ⟨_, _, hsc⟩ := hs.notes.sound t ht
      exact ⟨t.distance, (hs.isDist_iff h hpos hK hu hw _).mp hsc.dist, hs.added ht hknown⟩

/-! ## What a run keeps -/

/-- The entry of a node in `levels`. -/
def levelOf (s : LabelCreator) (u : Int) : Int := Edges.valueOf (rd s.levels u)

/-- The node `c` was contracted in an earlier level than `u`, which may still be
there. -/
def Earlier (s : LabelCreator) (c u : Int) : Prop :=
  c ∉ uncontracted s ∧ (u ∈ uncontracted s ∨ levelOf s c < levelOf s u)

/-- The shortcut `e` is made of two older edges that meet in a node contracted
earlier than both of its ends.  The part that is stored first is the one that
leads to the destination. -/
structure IsSum (s : LabelCreator) (e p q : Int) : Prop where
  parts : s.edges.HasParts e p q
  second : 0 ≤ p ∧ p < e
  first : 0 ≤ q ∧ q < e
  start : s.edges.startOf q = s.edges.startOf e
  middle : s.edges.destOf q = s.edges.startOf p
  dest : s.edges.destOf p = s.edges.destOf e
  dist : s.edges.distOf e = s.edges.distOf q + s.edges.distOf p
  start_later : Earlier s (s.edges.startOf p) (s.edges.startOf e)
  dest_later : Earlier s (s.edges.startOf p) (s.edges.destOf e)

/-- What holds between two levels, if all lengths are positive. -/
structure Hierarchy (I : InputGraph) (n : Nat) (s : LabelCreator) (K : Int → Int → Prop)
    (lvl : Int) : Prop where
  consistent : Consistent n s K
  known : KnownExact s K
  extends_ : Edges.Extends I.edges s.edges
  pos : ∀ e, s.edges.IsId e → 0 < s.edges.distOf e
  ends : ∀ e, s.edges.IsId e → (0 ≤ s.edges.startOf e ∧ s.edges.startOf e < n) ∧
    0 ≤ s.edges.destOf e ∧ s.edges.destOf e < n
  nonneg : 0 ≤ lvl
  dist : ∀ u w, u ∈ uncontracted s → w ∈ uncontracted s → ∀ d,
    IsDist (Cur s) u w d ↔ IsDist I.Adj u w d
  level : ∀ u : Int, 0 ≤ u → u < n → u ∉ uncontracted s → 0 ≤ levelOf s u ∧ levelOf s u < lvl
  current_all : ∀ u, ∀ e ∈ s.grid.current u, e ∈ s.grid.all u
  all : ∀ u, ∃ rest, s.grid.all u = I.grid.current u ++ rest ∧
    ∀ e ∈ rest, s.edges.numOfOriginalEdges ≤ e ∧ s.edges.IsId e ∧ s.edges.startOf e = u ∧
      (0 ≤ s.edges.destOf e ∧ s.edges.destOf e < n) ∧
      IsDist I.Adj u (s.edges.destOf e) (s.edges.distOf e)
  gone : ∀ u ∈ uncontracted s, ∀ e ∈ s.grid.all u, s.edges.destOf e ∈ uncontracted s →
    e ∈ s.grid.current u
  parts : ∀ e, s.edges.numOfOriginalEdges ≤ e → e < s.edges.nextShortcutId →
    ∃ p q, IsSum s e p q
  separate : ∀ u : Int, u ∉ uncontracted s → ∀ e ∈ s.grid.all u,
    Earlier s u (s.edges.destOf e) ∨ Earlier s (s.edges.destOf e) u
  hop : ∀ u h : Int, 0 ≤ u → u < n → 0 ≤ h → h < n → u ∉ uncontracted s → h ≠ u →
    ¬ Earlier s h u → ∀ d, IsDist I.Adj u h d →
    ∃ e ∈ s.grid.all u, Earlier s u (s.edges.destOf e) ∧
      ∃ d', IsDist I.Adj (s.edges.destOf e) h d' ∧ s.edges.distOf e + d' = d

theorem LevelStep.levelOf_eq (hs : LevelStep n lvl s K s' cs new N) (u : Int) :
    levelOf s' u = if u ∈ cs then lvl else levelOf s u := by
  rw [levelOf, hs.level]
  split_ifs with hu
  · rfl
  · rfl

/-- What was contracted earlier stays so. -/
theorem LevelStep.earlier (hs : LevelStep n lvl s K s' cs new N) (h : Hierarchy I n s K lvl)
    {c u : Int} (hc : 0 ≤ c ∧ c < n) (he : Earlier s c u) : Earlier s' c u := by
  obtain ⟨hcu, hu⟩ := he
  have hccs : c ∉ cs := fun hmem => hcu (hs.subset c hmem)
  refine ⟨fun hmem => hcu ((hs.rest c).mp hmem).1, ?_⟩
  rw [hs.levelOf_eq, hs.levelOf_eq, if_neg hccs]
  by_cases hucs : u ∈ cs
  · rw [if_pos hucs]
    exact Or.inr (h.level c hc.1 hc.2 hcu).2
  · rw [if_neg hucs]
    rcases hu with hu | hu
    · exact Or.inl ((hs.rest u).mpr ⟨hu, hucs⟩)
    · exact Or.inr hu

theorem Hierarchy.cur_pos (h : Hierarchy I n s K lvl) (u v l : Int) (hadj : Cur s u v l) :
    0 < l := by
  obtain ⟨e, he, rfl, rfl⟩ := hadj
  exact h.pos e (h.consistent.edge u e he).2.1

/-- The parts of a new shortcut. -/
theorem LevelStep.isSum_new (hs : LevelStep n lvl s K s' cs new N) (h : Consistent n s K)
    {u e : Int} (he : e ∈ N u) : ∃ p q, IsSum s' e p q := by
  obtain ⟨hle, t, ht, hn⟩ := hs.new_ u e he
  obtain ⟨c, hc, hsc⟩ := hs.notes.sound t ht
  obtain ⟨hend1, hend2⟩ := hs.ends t ht
  obtain ⟨_, hid1, hst1, _⟩ := h.edge _ _ hsc.second
  obtain ⟨_, hid2, hst2, _⟩ := h.edge _ _ hsc.first
  have hcgone : c ∉ uncontracted s' := fun hmem => ((hs.rest c).mp hmem).2 hc
  have hext := hs.extends_
  have hstart : s'.edges.startOf t.edgeId1 = c := by rw [hext.startOf_eq h.valid hid1, hst1]
  refine ⟨t.edgeId1, t.edgeId2, hn.parts, ⟨hid1.1, lt_of_lt_of_le hid1.2 hle⟩,
    ⟨hid2.1, lt_of_lt_of_le hid2.2 hle⟩, ?_, ?_, ?_, ?_, ?_, ?_⟩
  · rw [hext.startOf_eq h.valid hid2, hst2, hn.edge.startOf_eq, hn.start]
  · rw [hext.destOf_eq h.valid hid2, hsc.first_dest, hstart]
  · rw [hext.destOf_eq h.valid hid1, hsc.second_dest, hn.edge.destOf_eq]
  · rw [hext.distOf_eq h.valid hid1, hext.distOf_eq h.valid hid2, hn.edge.distOf_eq, hsc.length]
  · rw [hstart, hn.edge.startOf_eq]
    exact ⟨hcgone, Or.inl (hn.start ▸ hend1)⟩
  · rw [hstart, hn.edge.destOf_eq]
    exact ⟨hcgone, Or.inl hend2⟩

/-- An old shortcut stays the sum of its parts. -/
theorem LevelStep.isSum (hs : LevelStep n lvl s K s' cs new N) (h : Hierarchy I n s K lvl)
    {e p q : Int} (h0 : s.edges.numOfOriginalEdges ≤ e) (h1 : e < s.edges.nextShortcutId)
    (hsum : IsSum s e p q) : IsSum s' e p q := by
  have hext := hs.extends_
  have hv := h.consistent.valid
  have hide : s.edges.IsId e := ⟨by have := hsum.second; omega, h1⟩
  have hidp : s.edges.IsId p := ⟨hsum.second.1, lt_trans hsum.second.2 h1⟩
  have hidq : s.edges.IsId q := ⟨hsum.first.1, lt_trans hsum.first.2 h1⟩
  refine ⟨hext.parts e p q h0 h1 hsum.parts, hsum.second, hsum.first, ?_, ?_, ?_, ?_, ?_, ?_⟩
  · rw [hext.startOf_eq hv hidq, hext.startOf_eq hv hide, hsum.start]
  · rw [hext.destOf_eq hv hidq, hext.startOf_eq hv hidp, hsum.middle]
  · rw [hext.destOf_eq hv hidp, hext.destOf_eq hv hide, hsum.dest]
  · rw [hext.distOf_eq hv hide, hext.distOf_eq hv hidp, hext.distOf_eq hv hidq, hsum.dist]
  · rw [hext.startOf_eq hv hidp, hext.startOf_eq hv hide]
    exact hs.earlier h (h.ends p hidp).1 hsum.start_later
  · rw [hext.startOf_eq hv hidp, hext.destOf_eq hv hide]
    exact hs.earlier h (h.ends p hidp).1 hsum.dest_later

/-- The data of an edge that was ever listed. -/
theorem Hierarchy.edge_all (h : Hierarchy I n s K lvl) (hI : I.Undirected n) {u e : Int}
    (he : e ∈ s.grid.all u) : (0 ≤ u ∧ u < n) ∧ s.edges.IsId e ∧ s.edges.startOf e = u ∧
      0 ≤ s.edges.destOf e ∧ s.edges.destOf e < n := by
  have hnode : 0 ≤ u ∧ u < n := by
    by_contra hu
    have : s.grid.all u = [] := h.consistent.all.listOf_outside hu
    rw [this] at he
    simp at he
  obtain ⟨rest, hall, hrest⟩ := h.all u
  rw [hall] at he
  rcases List.mem_append.mp he with he | he
  · obtain ⟨h0, h1, hst⟩ := (hI.rows_iff u e).mp he
    have hid : I.edges.IsId e := ⟨h0, h1⟩
    rw [h.extends_.startOf_eq hI.valid hid, h.extends_.destOf_eq hI.valid hid]
    exact ⟨hnode, h.extends_.isId hid, hst, (hI.node e h0 h1).1, (hI.node e h0 h1).2.1⟩
  · obtain ⟨_, hid, hst, hdest, _⟩ := hrest e he
    exact ⟨hnode, hid, hst, hdest⟩

/-- The state with which `calculateCH` begins. -/
theorem start_hierarchy (hI : I.Undirected n) (hpos : I.Positive)
    (horder : ∀ u : Int, u ∈ calcOrder ↔ 0 ≤ u ∧ u < n) :
    Hierarchy I n (start I.edges I.grid n calcOrder) (fun _ _ => False) 0 where
  consistent := start_consistent hI hpos.nonneg horder
  known := fun _ _ hf => hf.elim
  extends_ := Edges.Extends.refl _
  pos := by
    rintro e ⟨h0, h1⟩
    exact hpos _ (hI.distOf_mem h0 h1)
  ends := by
    rintro e ⟨h0, h1⟩
    refine ⟨?_, (hI.node e h0 h1).1, (hI.node e h0 h1).2.1⟩
    by_contra hnode
    have hnil : I.grid.current (I.edges.startOf e) = [] := hI.lists.listOf_outside hnode
    have hmem := (hI.rows_iff _ e).mpr ⟨h0, h1, rfl⟩
    rw [hnil] at hmem
    simp at hmem
  nonneg := le_refl 0
  dist := fun _ _ _ _ _ => Iff.rfl
  level := fun u h0 h1 hu => absurd ((uncontracted_start _ _ _ _ u).mpr ⟨h0, h1⟩) hu
  current_all := fun _ _ he => he
  all := fun u => ⟨[], (List.append_nil _).symm, by simp⟩
  gone := fun _ _ _ he _ => he
  parts := by
    intro e h0 h1
    have h0' : (I.dest.length : Int) ≤ e := h0
    have h1' : e < (I.dest.length : Int) := h1
    omega
  separate := by
    intro u hu e he
    refine absurd ((uncontracted_start _ _ _ _ u).mpr ?_) hu
    by_contra hnode
    have hnil : I.grid.current u = [] := hI.lists.listOf_outside hnode
    have he' : e ∈ I.grid.current u := he
    rw [hnil] at he'
    simp at he'
  hop := fun u _ h0 h1 _ _ hu => absurd ((uncontracted_start _ _ _ _ u).mpr ⟨h0, h1⟩) hu

theorem LevelStep.new_nil (hs : LevelStep n lvl s K s' cs new N) {u : Int}
    (hu : u ∉ uncontracted s') : N u = [] := by
  by_contra hne
  obtain ⟨e, he⟩ := List.exists_mem_of_ne_nil _ hne
  obtain ⟨_, t, ht, hn⟩ := hs.new_ u e he
  exact hu (hn.start ▸ (hs.ends t ht).1)

/-- The first edge of a shortest way from a node that is contracted now to a
node that is still there. -/
theorem LevelStep.hop_new (hs : LevelStep n lvl s K s' cs new N) (h : Hierarchy I n s K lvl)
    {u x d : Int} (hu : u ∈ cs) (hx : x ∈ uncontracted s) (hne : x ≠ u)
    (hd : IsDist I.Adj u x d) :
    ∃ e ∈ s.grid.current u, s.edges.destOf e ∈ uncontracted s' ∧
      ∃ d', IsDist I.Adj (s.edges.destOf e) x d' ∧ s.edges.distOf e + d' = d := by
  obtain ⟨hwalk, hmin⟩ := (h.dist u x (hs.subset u hu) hx d).mpr hd
  cases hwalk with
  | nil => exact absurd rfl hne
  | @cons _ y _ l L huy hyx =>
    obtain ⟨_, hdy⟩ := IsDist.split ⟨hyx.cons huy, hmin⟩ (Walk.single huy) hyx
    obtain ⟨e, he, rfl, rfl⟩ := huy
    have hy := (h.consistent.edge u e he).2.2.2.1
    exact ⟨e, he, (hs.rest _).mpr ⟨hy, hs.indep u hu e he⟩, L, (h.dist _ x hy hx L).mp hdy, rfl⟩

theorem LevelStep.dist (hs : LevelStep n lvl s K s' cs new N) (h : Hierarchy I n s K lvl) :
    ∀ u w, u ∈ uncontracted s' → w ∈ uncontracted s' → ∀ d,
      IsDist (Cur s') u w d ↔ IsDist I.Adj u w d := by
  intro u w hu hw d
  rw [← hs.isDist_iff h.consistent h.cur_pos h.known hu hw d]
  exact h.dist u w ((hs.rest u).mp hu).1 ((hs.rest w).mp hw).1 d

theorem LevelStep.pos (hs : LevelStep n lvl s K s' cs new N) (h : Hierarchy I n s K lvl) :
    ∀ e, s'.edges.IsId e → 0 < s'.edges.distOf e := by
  have hc := h.consistent
  intro e he
  by_cases hold : e < s.edges.nextShortcutId
  · rw [hs.extends_.distOf_eq hc.valid ⟨he.1, hold⟩]
    exact h.pos e ⟨he.1, hold⟩
  · obtain ⟨u, hu⟩ := hs.ids e (by omega) he.2
    obtain ⟨_, t, ht, hn⟩ := hs.new_ u e hu
    obtain ⟨c, _, hsc⟩ := hs.notes.sound t ht
    have h1 := h.pos _ (hc.edge _ _ hsc.first).2.1
    have h2 := h.pos _ (hc.edge _ _ hsc.second).2.1
    rw [hn.edge.distOf_eq, hsc.length]
    omega

theorem LevelStep.ends_node (hs : LevelStep n lvl s K s' cs new N) (h : Hierarchy I n s K lvl) :
    ∀ e, s'.edges.IsId e → (0 ≤ s'.edges.startOf e ∧ s'.edges.startOf e < n) ∧
      0 ≤ s'.edges.destOf e ∧ s'.edges.destOf e < n := by
  have hc := h.consistent
  intro e he
  by_cases hold : e < s.edges.nextShortcutId
  · rw [hs.extends_.startOf_eq hc.valid ⟨he.1, hold⟩, hs.extends_.destOf_eq hc.valid ⟨he.1, hold⟩]
    exact h.ends e ⟨he.1, hold⟩
  · obtain ⟨u, hu⟩ := hs.ids e (by omega) he.2
    obtain ⟨_, t, ht, hn⟩ := hs.new_ u e hu
    obtain ⟨hend1, hend2⟩ := hs.ends t ht
    rw [hn.edge.startOf_eq, hn.edge.destOf_eq, ← hn.start]
    exact ⟨hc.isNode ((hs.rest _).mp hend1).1, hc.isNode ((hs.rest _).mp hend2).1⟩

theorem LevelStep.level_lt (hs : LevelStep n lvl s K s' cs new N) (h : Hierarchy I n s K lvl) :
    ∀ u : Int, 0 ≤ u → u < n → u ∉ uncontracted s' → 0 ≤ levelOf s' u ∧ levelOf s' u < lvl + 1 := by
  intro u h0 h1 hu
  rw [hs.levelOf_eq]
  by_cases hmem : u ∈ cs
  · rw [if_pos hmem]
    have := h.nonneg
    omega
  · rw [if_neg hmem]
    have := h.level u h0 h1 (fun hun => hu ((hs.rest u).mpr ⟨hun, hmem⟩))
    omega

theorem LevelStep.current_all (hs : LevelStep n lvl s K s' cs new N) (h : Hierarchy I n s K lvl) :
    ∀ u, ∀ e ∈ s'.grid.current u, e ∈ s'.grid.all u := by
  intro u e he
  have hmem := (hs.current u).mem_iff.mp he
  rw [hs.all u]
  split_ifs at hmem
  · simp at hmem
  · rcases List.mem_append.mp hmem with hmem | hmem
    · exact List.mem_append_left _ (h.current_all u e (List.mem_of_mem_filter hmem))
    · exact List.mem_append_right _ hmem

/-- Behind the edges of the input the list of all edges has shortcuts. -/
theorem LevelStep.shortcuts (hs : LevelStep n lvl s K s' cs new N) (h : Hierarchy I n s K lvl) :
    ∀ u, ∃ rest, s'.grid.all u = I.grid.current u ++ rest ∧
      ∀ e ∈ rest, s'.edges.numOfOriginalEdges ≤ e ∧ s'.edges.IsId e ∧ s'.edges.startOf e = u ∧
        (0 ≤ s'.edges.destOf e ∧ s'.edges.destOf e < n) ∧
        IsDist I.Adj u (s'.edges.destOf e) (s'.edges.distOf e) := by
  have hc := h.consistent
  have hext := hs.extends_
  intro u
  obtain ⟨rest, hall, hrest⟩ := h.all u
  refine ⟨rest ++ N u, by rw [hs.all, hall, List.append_assoc], ?_⟩
  intro e he
  rcases List.mem_append.mp he with he | he
  · obtain ⟨h1, h2, h3, h4, h5⟩ := hrest e he
    rw [hext.orig, hext.startOf_eq hc.valid h2, hext.destOf_eq hc.valid h2,
      hext.distOf_eq hc.valid h2]
    exact ⟨h1, hext.isId h2, h3, h4, h5⟩
  · obtain ⟨hle, t, ht, hn⟩ := hs.new_ u e he
    obtain ⟨c, _, hsc⟩ := hs.notes.sound t ht
    obtain ⟨hend1, hend2⟩ := hs.ends t ht
    rw [hext.orig, hn.edge.startOf_eq, hn.edge.destOf_eq, hn.edge.distOf_eq, ← hn.start]
    refine ⟨le_trans hc.valid.orig_le_next hle, ⟨hn.edge.nonneg, hn.edge.lt_next⟩, rfl,
      hc.isNode ((hs.rest _).mp hend2).1, ?_⟩
    exact (h.dist _ _ ((hs.rest _).mp hend1).1 ((hs.rest _).mp hend2).1 _).mp hsc.dist

/-- An edge between two nodes that are still there is current. -/
theorem LevelStep.gone (hs : LevelStep n lvl s K s' cs new N) (h : Hierarchy I n s K lvl)
    (hI : I.Undirected n) : ∀ u ∈ uncontracted s', ∀ e ∈ s'.grid.all u,
      s'.edges.destOf e ∈ uncontracted s' → e ∈ s'.grid.current u := by
  intro u hu e he hdest
  obtain ⟨hu1, hu2⟩ := (hs.rest u).mp hu
  rw [(hs.current u).mem_iff, if_neg hu2]
  rw [hs.all u] at he
  rcases List.mem_append.mp he with he | he
  · rw [hs.extends_.destOf_eq h.consistent.valid (h.edge_all hI he).2.1] at hdest
    obtain ⟨hd1, hd2⟩ := (hs.rest _).mp hdest
    exact List.mem_append_left _
      (List.mem_filter.mpr ⟨h.gone u hu1 e he hd1, decide_eq_true hd2⟩)
  · exact List.mem_append_right _ he

/-- No edge joins two nodes of one level. -/
theorem LevelStep.separate (hs : LevelStep n lvl s K s' cs new N) (h : Hierarchy I n s K lvl)
    (hI : I.Undirected n) : ∀ u : Int, u ∉ uncontracted s' → ∀ e ∈ s'.grid.all u,
      Earlier s' u (s'.edges.destOf e) ∨ Earlier s' (s'.edges.destOf e) u := by
  intro u hu e he
  rw [hs.all u, hs.new_nil hu, List.append_nil] at he
  obtain ⟨hnode, hid, _, hd0, hd1⟩ := h.edge_all hI he
  rw [hs.extends_.destOf_eq h.consistent.valid hid]
  by_cases hmem : u ∈ cs
  · by_cases hdest : s.edges.destOf e ∈ uncontracted s
    · have hcur := h.gone u (hs.subset u hmem) e he hdest
      exact Or.inl ⟨hu, Or.inl ((hs.rest _).mpr ⟨hdest, hs.indep u hmem e hcur⟩)⟩
    · refine Or.inr ⟨fun hx => hdest ((hs.rest _).mp hx).1, Or.inr ?_⟩
      rw [hs.levelOf_eq, hs.levelOf_eq, if_pos hmem,
        if_neg (fun hx => hdest (hs.subset _ hx))]
      exact (h.level _ hd0 hd1 hdest).2
  · have hold : u ∉ uncontracted s := fun hx => hu ((hs.rest u).mpr ⟨hx, hmem⟩)
    rcases h.separate u hold e he with hsep | hsep
    · exact Or.inl (hs.earlier h hnode hsep)
    · exact Or.inr (hs.earlier h ⟨hd0, hd1⟩ hsep)

/-- The first edge of a shortest way to a node that is not contracted earlier. -/
theorem LevelStep.hop (hs : LevelStep n lvl s K s' cs new N) (h : Hierarchy I n s K lvl)
    (hI : I.Undirected n) : ∀ u x : Int, 0 ≤ u → u < n → 0 ≤ x → x < n → u ∉ uncontracted s' →
      x ≠ u → ¬ Earlier s' x u → ∀ d, IsDist I.Adj u x d →
      ∃ e ∈ s'.grid.all u, Earlier s' u (s'.edges.destOf e) ∧
        ∃ d', IsDist I.Adj (s'.edges.destOf e) x d' ∧ s'.edges.distOf e + d' = d := by
  have hc := h.consistent
  have hext := hs.extends_
  intro u x hu0 hu1 hx0 hx1 hu hne hlater d hd
  rw [hs.all u, hs.new_nil hu, List.append_nil]
  by_cases hmem : u ∈ cs
  · have hx : x ∈ uncontracted s := by
      by_contra hx
      refine hlater ⟨fun hx' => hx ((hs.rest x).mp hx').1, Or.inr ?_⟩
      rw [hs.levelOf_eq, hs.levelOf_eq, if_pos hmem, if_neg (fun hx' => hx (hs.subset x hx'))]
      exact (h.level x hx0 hx1 hx).2
    obtain ⟨e, he, hdest, d', hd', hsum⟩ := hs.hop_new h hmem hx hne hd
    have hid := (hc.edge u e he).2.1
    refine ⟨e, h.current_all u e he, ?_⟩
    rw [hext.destOf_eq hc.valid hid, hext.distOf_eq hc.valid hid]
    exact ⟨⟨hu, Or.inl hdest⟩, d', hd', hsum⟩
  · have hold : u ∉ uncontracted s := fun hx => hu ((hs.rest u).mpr ⟨hx, hmem⟩)
    obtain ⟨e, he, hear, d', hd', hsum⟩ := h.hop u x hu0 hu1 hx0 hx1 hold hne
      (fun hear => hlater (hs.earlier h ⟨hx0, hx1⟩ hear)) d hd
    have hid := (h.edge_all hI he).2.1
    refine ⟨e, he, ?_⟩
    rw [hext.destOf_eq hc.valid hid, hext.distOf_eq hc.valid hid]
    exact ⟨hs.earlier h ⟨hu0, hu1⟩ hear, d', hd', hsum⟩

/-- A level keeps the hierarchy. -/
theorem LevelStep.hierarchy (hs : LevelStep n lvl s K s' cs new N) (h : Hierarchy I n s K lvl)
    (hI : I.Undirected n) : Hierarchy I n s'
      (fun u w => K u w ∨ ∃ t ∈ new, t.startId = u ∧ t.destId = w) (lvl + 1) where
  consistent := hs.consistent h.consistent (settles_of_pos h.cur_pos cs)
  known := hs.knownExact h.consistent h.cur_pos h.known
  extends_ := h.extends_.trans hs.extends_
  pos := hs.pos h
  ends := hs.ends_node h
  nonneg := by
    have := h.nonneg
    omega
  dist := hs.dist h
  level := hs.level_lt h
  current_all := hs.current_all h
  all := hs.shortcuts h
  gone := hs.gone h hI
  parts := by
    intro e h0 h1
    by_cases hold : e < s.edges.nextShortcutId
    · rw [hs.extends_.orig] at h0
      obtain ⟨p, q, hsum⟩ := h.parts e h0 hold
      exact ⟨p, q, hs.isSum h h0 hold hsum⟩
    · obtain ⟨u, hu⟩ := hs.ids e (by omega) h1
      exact hs.isSum_new h.consistent hu
  separate := hs.separate h hI
  hop := hs.hop h hI

/-- All the states of a run with positive lengths. -/
theorem Reached.hierarchy (hI : I.Undirected n) (hpos : I.Positive)
    (horder : ∀ u : Int, u ∈ calcOrder ↔ 0 ≤ u ∧ u < n) {ok : Int → LabelCreator → Prop}
    (hr : Reached ok I n calcOrder s lvl) : ∃ K, Hierarchy I n s K lvl := by
  induction hr with
  | start => exact ⟨_, start_hierarchy hI hpos horder⟩
  | @level s s' lvl _ _ _ hrun ih =>
    obtain ⟨K, h⟩ := ih
    obtain ⟨s'', cs, new, N, hrun', hs⟩ := calcNextLvl_spec h.consistent lvl
    rw [hrun, Except.ok.injEq] at hrun'
    subst hrun'
    exact ⟨_, hs.hierarchy h hI⟩

/-- `calcNextLvl` neither fails nor changes a distance between two nodes that
are uncontracted after it, and it neither joins nor separates such nodes. -/
theorem calcNextLvl_isDist (hI : I.Undirected n) (hpos : I.Positive)
    (horder : ∀ u : Int, u ∈ calcOrder ↔ 0 ≤ u ∧ u < n)
    (hr : Reached (fun _ _ => True) I n calcOrder s lvl) :
    ∃ s', calcNextLvl lvl s = .ok s' ∧
      ∀ u w, u ∈ uncontracted s' → w ∈ uncontracted s' →
        (∀ d, IsDist (Cur s) u w d ↔ IsDist (Cur s') u w d) ∧
        ((∃ L, Walk (Cur s) u w L) ↔ ∃ L, Walk (Cur s') u w L) := by
  obtain ⟨K, h⟩ := hr.hierarchy hI hpos horder
  obtain ⟨s', cs, new, N, hrun, hs⟩ := calcNextLvl_spec h.consistent lvl
  have hpos' := (hs.hierarchy h hI).cur_pos
  refine ⟨s', hrun, fun u w hu hw => ?_⟩
  have hiff := hs.isDist_iff h.consistent h.cur_pos h.known hu hw
  refine ⟨hiff, ?_, ?_⟩
  · rintro ⟨L, hL⟩
    obtain ⟨d, hd⟩ := exists_isDist (fun u v l hl => le_of_lt (h.cur_pos u v l hl)) hL
    exact ⟨d, ((hiff d).mp hd).1⟩
  · rintro ⟨L, hL⟩
    obtain ⟨d, hd⟩ := exists_isDist (fun u v l hl => le_of_lt (hpos' u v l hl)) hL
    exact ⟨d, ((hiff d).mpr hd).1⟩

/-- A triangle in which the way over node 1 is shorter than the edge from node 0
to node 2. -/
def detour : InputGraph := InputGraph.ofEdges 3 [(0, 2, 10), (0, 1, 1), (1, 2, 1)]

theorem detour_checked : detour.Checked 3 := by decide +kernel

theorem detour_positive : detour.Positive := by decide +kernel

theorem mem_detourOrder (u : Int) : u ∈ ([1, 0, 2] : List Int) ↔ 0 ≤ u ∧ u < (3 : Nat) := by
  simp only [List.mem_cons, List.not_mem_nil, or_false]
  omega

theorem calcNextLvl_isDist_detour :
    ∃ s', calcNextLvl 0 (start detour.edges detour.grid 3 [1, 0, 2]) = .ok s' ∧
      ∀ u w, u ∈ uncontracted s' → w ∈ uncontracted s' →
        (∀ d, IsDist (Cur (start detour.edges detour.grid 3 [1, 0, 2])) u w d ↔
          IsDist (Cur s') u w d) ∧
        ((∃ L, Walk (Cur (start detour.edges detour.grid 3 [1, 0, 2])) u w L) ↔
          ∃ L, Walk (Cur s') u w L) :=
  calcNextLvl_isDist detour_checked.undirected detour_positive mem_detourOrder Reached.start

end positive

/-! ## `calculateCH` -/

/-- `calculateCH` returns when every state that it reaches is consistent. -/
theorem calculateCH_of_consistent (ok : Int → LabelCreator → Prop)
    (h : ∀ s lvl, Reached ok I n calcOrder s lvl → ∃ K, Consistent n s K)
    (hok : ∀ s lvl, Reached ok I n calcOrder s lvl → 0 < s.nonContractedNum → ok lvl s) :
    ∃ s lvl, calculateCH I.edges I.grid n calcOrder = .ok s ∧ Reached ok I n calcOrder s lvl ∧
      uncontracted s = ∅ := by
  obtain ⟨⟨s, lvl⟩, _, hrun, ⟨hr, _⟩, hexit⟩ := whileLoop_bounded
    (c := fun state : LabelCreator × Int => return 0 < state.1.nonContractedNum)
    (f := fun state => do return (← calcNextLvl state.2 state.1, state.2 + 1))
    (I := fun k state => Reached ok I n calcOrder state.1 state.2 ∧
      state.1.nonContractedNum ≤ k)
    (fun _ _ _ => ⟨_, rfl⟩) (by
      rintro k ⟨s, lvl⟩ ⟨hr, hk⟩ hguard
      simp only [pure_eq_ok, Except.ok.injEq, decide_eq_true_eq] at hguard hk
      obtain ⟨K, hc⟩ := h s lvl hr
      obtain ⟨s', cs, new, N, hrun, hs⟩ := calcNextLvl_spec hc lvl
      have hcs : 0 < cs.length := by
        refine List.length_pos_iff.mpr fun hnil => ?_
        have := hc.left
        rw [hs.progress hnil, Finset.card_empty] at this
        omega
      have hleft := hs.left
      refine ⟨(s', lvl + 1), k - 1, ?_, ⟨hr.level (hok s lvl hr hguard) hguard hrun, ?_⟩, ?_⟩
      · simp only [hrun, ok_bind]
        rfl
      · simp only
        omega
      · omega)
    n n (start I.edges I.grid n calcOrder, 0) ⟨Reached.start, le_refl _⟩ (le_refl n)
  obtain ⟨K, hc⟩ := h s lvl hr
  refine ⟨s, lvl, ?_, hr, ?_⟩
  · unfold calculateCH
    rw [hrun, ok_bind]
    rfl
  · simp only [pure_eq_ok, Except.ok.injEq, decide_eq_false_iff_not] at hexit
    have := hc.left
    exact Finset.card_eq_zero.mp (by omega)

/-- In a run in which no search can stop too early the graph stays symmetric,
no edge leads to a contracted node, and no level fails. -/
theorem calculateCH_symmetric (hI : I.Undirected n) (hnn : I.Nonneg)
    (horder : ∀ u : Int, u ∈ calcOrder ↔ 0 ≤ u ∧ u < n) :
    (∀ s lvl, Reached SettlesAt I n calcOrder s lvl →
      (∀ u w d, countTo s.edges (s.grid.current u) w d
        = countTo s.edges (s.grid.current w) u d) ∧
      (∀ u, ∀ e ∈ s.grid.current u, s.edges.destOf e ∈ uncontracted s) ∧
      ∃ s', calcNextLvl lvl s = .ok s') ∧
    ((∀ s lvl, Reached SettlesAt I n calcOrder s lvl → 0 < s.nonContractedNum →
      SettlesAt lvl s) → ∃ s, calculateCH I.edges I.grid n calcOrder = .ok s) := by
  constructor
  · intro s lvl hr
    obtain ⟨K, hc⟩ := hr.consistent hI hnn horder
    obtain ⟨s', _, _, _, hrun, _⟩ := calcNextLvl_spec hc lvl
    exact ⟨hc.symm, fun u e he => (hc.edge u e he).2.2.2.1, s', hrun⟩
  · intro hok
    obtain ⟨s, _, hrun, _⟩ := calculateCH_of_consistent _
      (fun s lvl hr => hr.consistent hI hnn horder) hok
    exact ⟨s, hrun⟩

/-- The condition of `calculateCH_symmetric` is met in the whole run on
`detour`, all of whose lengths are positive. -/
theorem calculateCH_symmetric_detour :
    ∃ s, calculateCH detour.edges detour.grid 3 [1, 0, 2] = .ok s := by
  refine (calculateCH_symmetric detour_checked.undirected detour_positive.nonneg
    mem_detourOrder).2 ?_
  intro s lvl hr _ s₁ _
  obtain ⟨K, h⟩ := hr.hierarchy detour_checked.undirected detour_positive mem_detourOrder
  exact settles_of_pos h.cur_pos _

/-- A chain of nine nodes at the length 0, from 10 to 5.  The node 5 at its end is joined to
the nodes 3 and 7 at the length 1, and these are joined at the length 0. -/
def zeroChain : InputGraph := InputGraph.ofEdges 11
  [(4, 9, 0), (3, 7, 0), (6, 10, 0), (5, 3, 1), (5, 7, 1), (8, 0, 0), (1, 2, 0), (9, 8, 0),
    (0, 1, 0), (2, 6, 0), (5, 4, 0)]

def zeroChainOrder : List Int := [7, 1, 2, 9, 5, 3, 6, 8, 0, 4, 10]

/-- In the level 0, the search from 3 settles 7 and adds the shortcut 3->5.  The one from
5 settles the nine nodes of its chain and then 3, before it looks at 7, and stops: there
is no shortcut 5->3.  So the level 1, which removes 5, leaves the edge 3->5, and the
level 2 fails. -/
theorem zeroChain_fails :
    zeroChain.Undirected 11 ∧ zeroChain.Simple ∧ zeroChain.Nonneg ∧
      (∀ u : Int, (zeroChain.grid.current u).length ≤ 4) ∧
      (∀ u : Int, u ∈ zeroChainOrder ↔ 0 ≤ u ∧ u < (11 : Nat)) ∧
      (∃ s s', Reached (fun _ _ => True) zeroChain 11 zeroChainOrder s 1 ∧
        3 ∈ uncontracted s ∧ 5 ∈ uncontracted s ∧
        countTo s.edges (s.grid.current 3) 5 1 = 2 ∧ countTo s.edges (s.grid.current 5) 3 1 = 1 ∧
        Reached (fun _ _ => True) zeroChain 11 zeroChainOrder s' 2 ∧
        3 ∈ uncontracted s' ∧ 5 ∉ uncontracted s' ∧
        countTo s'.edges (s'.grid.current 3) 5 1 = 1 ∧
        calcNextLvl 2 s' = .error .indexOutOfBounds) ∧
      ∀ s, calculateCH zeroChain.edges zeroChain.grid 11 zeroChainOrder ≠ .ok s := by
  have hchecked : zeroChain.Checked 11 := by decide +kernel
  have hcounts : ∀ count ∈ zeroChain.counts, count ≤ 4 := by decide +kernel
  refine ⟨hchecked.undirected, hchecked.simple (by decide +kernel), by decide +kernel, ?_, ?_, ?_, ?_⟩
  · intro u
    unfold InputGraph.grid DynamicGrid.current DynamicGrid.initializeEdges DynamicGrid.listOf
    cases hrow : rd zeroChain.rows u with
    | error e => simp
    | ok row =>
      cases hcount : rd zeroChain.counts u with
      | error e => simp
      | ok count =>
        have := hcounts count (mem_of_rd hcount)
        simp only [List.length_take]
        omega
  · intro u
    simp only [zeroChainOrder, List.mem_cons, List.not_mem_nil, or_false]
    omega
  · obtain ⟨s, hs, hp⟩ := exists_of_map_toOption
      (x := calcNextLvl 0 (start zeroChain.edges zeroChain.grid 11 zeroChainOrder))
      (p := fun s => decide (s.contracted[3]? = some false ∧ s.contracted[5]? = some false ∧
        countTo s.edges (s.grid.current 3) 5 1 = 2 ∧ countTo s.edges (s.grid.current 5) 3 1 = 1 ∧
        0 < s.nonContractedNum) &&
        (calcNextLvl 1 s).toOption.any fun s' => decide (s'.contracted[3]? = some false ∧
          s'.contracted[5]? = some true ∧ countTo s'.edges (s'.grid.current 3) 5 1 = 1 ∧
          calcNextLvl 2 s' = .error .indexOutOfBounds))
      (by decide +kernel)
    rw [Bool.and_eq_true, decide_eq_true_iff] at hp
    obtain ⟨⟨h3, h5, h1, h2, hleft⟩, hnext⟩ := hp
    have hr : Reached (fun _ _ => True) zeroChain 11 zeroChainOrder s 1 :=
      Reached.start.level trivial (by decide) hs
    cases hs' : calcNextLvl 1 s with
    | error e => simp [hs', Except.toOption] at hnext
    | ok s' =>
      simp only [hs', Except.toOption, Option.any_some, decide_eq_true_iff] at hnext
      obtain ⟨h3', h5', h1', hfail⟩ := hnext
      refine ⟨s, s', hr, mem_uncontracted.mpr (rd_of_getElem? h3),
        mem_uncontracted.mpr (rd_of_getElem? h5), h1, h2, hr.level trivial hleft hs',
        mem_uncontracted.mpr (rd_of_getElem? h3'), ?_, h1', hfail⟩
      intro hmem
      have hrd := mem_uncontracted.mp hmem
      rw [show rd s'.contracted 5 = .ok true from rd_of_getElem? (n := 5) h5'] at hrd
      cases hrd
  · intro s hs
    have hfail : (calculateCH zeroChain.edges zeroChain.grid 11 zeroChainOrder).isOk = false := by
      decide +kernel
    rw [hs] at hfail
    simp [Except.isOk, Except.toBool] at hfail

end LabelCreator

end SeaRouter
