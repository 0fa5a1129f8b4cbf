import SeaRouter.HubLabelCreation.CalcLabels
import SeaRouter.HubLabelCreation.CalculateCH
import SeaRouter.HubLabelData.HubLNodes

/-!
# Which nodes get labels

`calcLabels` stops `NUM_OF_NO_LABEL_LVLS + 1` change indices before the last one, and
the router asks a node for its level.  Both name the same nodes.

* `orders_of_levels`: the order and the change indices, when the levels `0` to `L` are
  in use.
* `shareNodes_of_levels`: the ranges that the loop of `calcLabels` gives to its threads,
  whatever these do with them.  They have the nodes from the level `K` on, each of them
  once, one level in each iteration.
* `Only.batches`: a run gives labels to the nodes of these ranges.
-/

namespace SeaRouter

open Java BinHeap

namespace LabelCreator

/-- The ranges of the threads of the iteration `i`. -/
def batchRanges (numOfThreads : Nat) (changeIndices : OrderedIntSet) (i : Int) :
    Run (List (Int × Int)) := do
  let startIdx ← changeIndices.get i
  let endIdx ← changeIndices.get (i + 1)
  return threadRanges numOfThreads startIdx endIdx

theorem shareBatch_eq {σ : Type} (run : σ → Int × Int → Run σ) (T : Nat) (set : OrderedIntSet)
    (s : σ) (i : Int) :
    shareBatch run T set s i = batchRanges T set i >>= fun ranges => ranges.foldlM run s := by
  unfold shareBatch batchRanges
  cases set.get i with
  | error e => rfl
  | ok startIdx =>
    rw [ok_bind, ok_bind]
    cases set.get (i + 1) with
    | error e => rfl
    | ok endIdx => rfl

/-- The indices of these ranges, in order. -/
def positions (ranges : List (Int × Int)) : List Int :=
  ranges.flatMap fun range => indices range.1 range.2

/-- The nodes at these indices. -/
def rangeNodes (calcOrder : List Int) (ranges : List (Int × Int)) : Run (List Int) :=
  (positions ranges).mapM (rd calcOrder)

variable {levels order cs : List Int} {n L K T : Nat} {set : OrderedIntSet}

/-! ## The order -/

/-- The order is sorted by falling level, and the change indices `cs` with the number
of nodes delimit the levels. -/
structure Orders (levels : List Int) (L : Nat) (order cs : List Int) : Prop where
  perm : order.Perm (indices 0 levels.length)
  sorted : (order.map (HLDijkstra.level levels)).Pairwise (· ≥ ·)
  length : cs.length = L + 1
  delimit : ∀ k : Nat, k ≤ L → ∃ lo hi : Nat, (cs ++ [(levels.length : Int)])[k]? = some (lo : Int) ∧
    (cs ++ [(levels.length : Int)])[k + 1]? = some (hi : Int) ∧ lo ≤ hi ∧ hi ≤ levels.length ∧
    ∀ (p : Nat) v, order[p]? = some v →
      (lo ≤ p ∧ p < hi ↔ HLDijkstra.level levels v = (L : Int) - k)

theorem levelAt_of_getElem? {p : Nat} {v : Int} (h : order[p]? = some v) :
    levelAt levels order p = HLDijkstra.level levels v := by
  obtain ⟨hlt, hv⟩ := List.getElem?_eq_some_iff.mp h
  rw [levelAt, idAt_eq_getElem hlt, hv]

theorem SortedFrom.pairwise (hs : SortedFrom levels order 0) :
    (order.map (HLDijkstra.level levels)).Pairwise (· ≥ ·) := by
  rw [List.pairwise_map, List.pairwise_iff_getElem]
  intro i j hi hj hij
  have := hs i j hij (Nat.zero_le _) hj
  rwa [levelAt_of_getElem? (List.getElem?_eq_getElem hi),
    levelAt_of_getElem? (List.getElem?_eq_getElem hj)] at this

theorem level_mem (hn : Nodes n levels order) {p : Nat} (hp : p < n) :
    levelAt levels order p ∈ levels := mem_of_rd (hn.rd_level hp).2

/-- A level in use is that of some position. -/
theorem exists_levelAt (hn : Nodes n levels order) {l : Int} (hl : l ∈ levels) :
    ∃ p, p < n ∧ levelAt levels order p = l := by
  obtain ⟨v, h0, h1, hv⟩ := exists_rd_of_mem hl
  rw [hn.levelsLength] at h1
  have hmem : v ∈ order := hn.perm.mem_iff.mpr (mem_indices.mpr ⟨h0, h1⟩)
  obtain ⟨p, hp⟩ := List.mem_iff_getElem?.mp hmem
  refine ⟨p, ?_, ?_⟩
  · rw [← hn.length]
    exact (List.getElem?_eq_some_iff.mp hp).1
  · rw [levelAt_of_getElem? hp, HLDijkstra.level, hv]
    rfl

theorem orders_of_levels (hn : Nodes n levels order) (hs : SortedFrom levels order 0)
    (hc : Changes levels order n cs) (hlevels : ∀ l : Int, l ∈ levels ↔ 0 ≤ l ∧ l ≤ L) :
    Orders levels L order cs := by
  have hlen := hn.length
  have hrange : ∀ p, p < n →
      0 ≤ levelAt levels order p ∧ levelAt levels order p < ((L + 1 : Nat) : Int) := by
    intro p hp
    have := (hlevels _).mp (level_mem hn hp)
    omega
  have hused : ∀ l, 0 ≤ l → l < ((L + 1 : Nat) : Int) → ∃ p, p < n ∧ levelAt levels order p = l := by
    intro l h0 h1
    exact exists_levelAt hn ((hlevels l).mpr ⟨h0, by omega⟩)
  obtain ⟨p₀, hp₀, _⟩ := hused 0 (le_refl 0) (by omega)
  have hcount : cs.length = L + 1 := by
    have := Changes.top_eq hc hs hlen hrange hused (by omega)
    omega
  refine ⟨by rw [hn.levelsLength]; exact hn.perm, hs.pairwise, hcount, ?_⟩
  intro k hk
  obtain ⟨lo, hi, hb, hle, hhi⟩ := hc.batch (k := k) (by omega)
  rw [hn.levelsLength]
  refine ⟨lo, hi, hb.lo, hb.hi, hle, hhi, ?_⟩
  intro p v hv
  have hp : p < n := by
    rw [← hlen]
    exact (List.getElem?_eq_some_iff.mp hv).1
  -- the two cuts around the level
  have hcut := Changes.lt_cut_iff hc hs hlen hrange hused (K := L + 1 - k) (m := lo)
    (by rw [show cs.length - (L + 1 - k) = k by omega]; exact hb.lo) p hp
  have hcut' := Changes.lt_cut_iff hc hs hlen hrange hused (K := L - k) (m := hi)
    (by rw [show cs.length - (L - k) = k + 1 by omega]; exact hb.hi) p hp
  rw [levelAt_of_getElem? hv] at hcut hcut'
  omega

/-! ## The nodes of the threads -/

theorem Orders.nodup (h : Orders levels L order cs) : order.Nodup := by
  apply h.perm.nodup_iff.mpr
  rw [indices]
  apply List.Nodup.map _ List.nodup_range
  intro a b hab
  simpa using hab

theorem Orders.mem (h : Orders levels L order cs) {v : Int} :
    v ∈ order ↔ 0 ≤ v ∧ v < levels.length := by
  rw [h.perm.mem_iff, mem_indices]

theorem Orders.length_order (h : Orders levels L order cs) : order.length = levels.length := by
  rw [h.perm.length_eq, length_indices_zero]
  omega

/-- The reads of one range of positions. -/
theorem mapM_rd {lo hi : Nat} (hle : lo ≤ hi) (hhi : hi ≤ order.length) :
    (indices lo hi).mapM (rd order) = .ok ((order.take hi).drop lo) := by
  rw [take_drop_eq rfl hle hhi]
  apply mapM_eq_ok
  intro i hi'
  obtain ⟨h0, h1⟩ := mem_indices.mp hi'
  obtain ⟨p, rfl⟩ : ∃ p : Nat, i = p := ⟨i.toNat, by omega⟩
  apply rd_of_getElem?
  rw [Int.toNat_natCast, idAt_eq_getElem (by omega), List.getElem?_eq_getElem]

/-- The threads of one iteration get the nodes of one level. -/
theorem Orders.rangeNodes (h : Orders levels L order cs) (hT : 0 < T)
    (hset : OrderedIntSet.Holds set (cs ++ [(levels.length : Int)])) {k : Nat} (hk : k ≤ L) :
    ∃ ranges us, batchRanges T set k = .ok ranges ∧ rangeNodes order ranges = .ok us ∧ us.Nodup ∧
      ∀ v, v ∈ us ↔ (0 ≤ v ∧ v < levels.length) ∧ HLDijkstra.level levels v = (L : Int) - k := by
  obtain ⟨lo, hi, hlo, hhi, hle, hbound, hlevel⟩ := h.delimit k hk
  have hlen := h.length_order
  refine ⟨threadRanges T lo hi, (order.take hi).drop lo, ?_, ?_, ?_, ?_⟩
  · have hget := OrderedIntSet.get_spec hset hlo
    have hget' := OrderedIntSet.get_spec hset hhi
    rw [Nat.cast_succ] at hget'
    simp only [batchRanges, hget, hget', ok_bind, pure_eq_ok]
  · rw [LabelCreator.rangeNodes, positions, threadRanges_flatMap hT hle]
    exact mapM_rd hle (by omega)
  · exact (h.nodup.sublist (List.take_sublist _ _)).sublist (List.drop_sublist _ _)
  · intro v
    rw [← h.mem]
    constructor
    · intro hv
      obtain ⟨j, hj⟩ := List.mem_iff_getElem?.mp hv
      have hjlt := (List.getElem?_eq_some_iff.mp hj).1
      rw [List.length_drop, List.length_take] at hjlt
      rw [List.getElem?_drop, List.getElem?_take_of_lt (by omega)] at hj
      exact ⟨List.mem_of_getElem? hj, (hlevel _ v hj).mp (by omega)⟩
    · intro hv
      obtain ⟨p, hp⟩ := List.mem_iff_getElem?.mp hv.1
      obtain ⟨hp0, hp1⟩ := (hlevel p v hp).mpr hv.2
      apply List.mem_of_getElem? (i := p - lo)
      rw [List.getElem?_drop, List.getElem?_take_of_lt (by omega), Nat.add_sub_cancel' hp0, hp]

/-- The loop over the iterations, when `ranges` are what the iterations give to their
threads. -/
theorem foldlM_shareBatch {σ : Type} (run : σ → Int × Int → Run σ) {ranges : Nat → List (Int × Int)}
    (l : List Nat) (h : ∀ k ∈ l, batchRanges T set k = .ok (ranges k)) (s : σ) :
    (l.map fun k : Nat => (k : Int)).foldlM (shareBatch run T set) s =
      (l.map ranges).foldlM (fun s rs => rs.foldlM run s) s := by
  induction l generalizing s with
  | nil => rfl
  | cons k l ih =>
    rw [List.map_cons, List.map_cons, List.foldlM_cons, List.foldlM_cons, shareBatch_eq,
      h k List.mem_cons_self, ok_bind]
    congr 1
    funext s'
    exact ih (fun k' hk' => h k' (List.mem_cons_of_mem k hk')) s'

/-- The nodes of all iterations, one after the other. -/
theorem rangeNodes_flatten {ranges : Nat → List (Int × Int)} {nodes : Nat → List Int} (l : List Nat)
    (h : ∀ k ∈ l, rangeNodes order (ranges k) = .ok (nodes k)) :
    rangeNodes order (l.map ranges).flatten = .ok (l.map nodes).flatten := by
  induction l with
  | nil => rfl
  | cons k l ih =>
    have hrest := ih fun k' hk' => h k' (List.mem_cons_of_mem k hk')
    have hfirst := h k List.mem_cons_self
    rw [rangeNodes] at hfirst hrest
    rw [List.map_cons, List.flatten_cons, rangeNodes, positions, List.flatMap_append,
      List.mapM_append]
    simp only [positions] at hfirst hrest
    rw [hfirst, ok_bind, hrest, ok_bind, List.map_cons, List.flatten_cons]
    rfl

/-- The iterations give the ranges `batches` to their threads: the nodes from the level
`K` on, from the level `L` downwards and each of them once. -/
structure HandsOut (levels : List Int) (L K : Nat) (order : List Int)
    (batches : List (List (Int × Int))) : Prop where
  iterations : batches.length = L + 1 - K
  batch : ∀ (k : Nat) ranges, batches[k]? = some ranges →
    ∃ us, rangeNodes order ranges = .ok us ∧ us.Nodup ∧
      ∀ v, v ∈ us ↔ (0 ≤ v ∧ v < levels.length) ∧ HLDijkstra.level levels v = (L : Int) - k
  all : ∃ us, rangeNodes order batches.flatten = .ok us ∧ us.Nodup ∧
    ∀ v, v ∈ us ↔ (0 ≤ v ∧ v < levels.length) ∧ (K : Int) ≤ HLDijkstra.level levels v

/-- The nodes of the iterations are those from some level on. -/
theorem nodes_of_levels (hlevels : ∀ l : Int, l ∈ levels ↔ 0 ≤ l ∧ l ≤ L) {nodes : Nat → List Int}
    (hnodup : ∀ k : Nat, k ≤ L → (nodes k).Nodup)
    (hmem : ∀ k : Nat, k ≤ L → ∀ v, v ∈ nodes k ↔
      (0 ≤ v ∧ v < levels.length) ∧ HLDijkstra.level levels v = (L : Int) - k) :
    (((List.range (L + 1 - K)).map nodes).flatten).Nodup ∧
      ∀ v, v ∈ ((List.range (L + 1 - K)).map nodes).flatten ↔
        (0 ≤ v ∧ v < levels.length) ∧ (K : Int) ≤ HLDijkstra.level levels v := by
  constructor
  · rw [List.nodup_flatten]
    constructor
    · intro us hus
      obtain ⟨k, hk, rfl⟩ := List.mem_map.mp hus
      rw [List.mem_range] at hk
      exact hnodup k (by omega)
    · rw [List.pairwise_map]
      apply List.nodup_range.imp_of_mem
      intro i j hi hj hij v hvi hvj
      rw [List.mem_range] at hi hj
      have h1 := ((hmem i (by omega) v).mp hvi).2
      have h2 := ((hmem j (by omega) v).mp hvj).2
      omega
  · intro v
    rw [List.mem_flatten]
    constructor
    · intro hex
      obtain ⟨us, hus, hv⟩ := hex
      obtain ⟨k, hk, rfl⟩ := List.mem_map.mp hus
      rw [List.mem_range] at hk
      obtain ⟨hnode, hlevel⟩ := (hmem k (by omega) v).mp hv
      exact ⟨hnode, by omega⟩
    · intro hv
      obtain ⟨hnode, hK⟩ := hv
      obtain ⟨l, hl⟩ := exists_rd (a := levels) hnode.1 hnode.2
      have hlevel : HLDijkstra.level levels v = l := by
        rw [HLDijkstra.level, hl]
        rfl
      have hbound := (hlevels l).mp (mem_of_rd hl)
      have hk : ((L : Int) - l).toNat ∈ List.range (L + 1 - K) := List.mem_range.mpr (by omega)
      refine ⟨nodes ((L : Int) - l).toNat, List.mem_map_of_mem hk, ?_⟩
      exact (hmem _ (by omega) v).mpr ⟨hnode, by omega⟩

theorem shareNodes_of_levels (horder : createHLCalcOrder levels levels.length = .ok (order, set))
    (h : Orders levels L order cs) (hT : 0 < T)
    (hset : OrderedIntSet.Holds set (cs ++ [(levels.length : Int)]))
    (hlevels : ∀ l : Int, l ∈ levels ↔ 0 ≤ l ∧ l ≤ L) (K : Nat) :
    ∃ batches, HandsOut levels L K order batches ∧
      ∀ (σ : Type) (run : List Int → σ → Int × Int → Run σ) (s : σ),
        shareNodes run T K levels levels.length s =
          batches.foldlM (fun s ranges => ranges.foldlM (run order) s) s := by
  have hex : ∀ k : Nat, ∃ ranges us, k ≤ L → batchRanges T set k = .ok ranges ∧
      rangeNodes order ranges = .ok us ∧ us.Nodup ∧
      ∀ v, v ∈ us ↔ (0 ≤ v ∧ v < levels.length) ∧ HLDijkstra.level levels v = (L : Int) - k := by
    intro k
    by_cases hk : k ≤ L
    · obtain ⟨ranges, us, hus⟩ := h.rangeNodes hT hset hk
      exact ⟨ranges, us, fun _ => hus⟩
    · exact ⟨[], [], fun hle => absurd hle hk⟩
  choose ranges nodes hbatch using hex
  obtain ⟨hnodup, hmem⟩ := nodes_of_levels (K := K) hlevels (fun k hk => (hbatch k hk).2.2.1)
    fun k hk => (hbatch k hk).2.2.2
  refine ⟨(List.range (L + 1 - K)).map ranges, ⟨by simp, ?_, ?_⟩, ?_⟩
  · intro k rs hk
    rw [List.getElem?_map, Option.map_eq_some_iff] at hk
    obtain ⟨k', hk', rfl⟩ := hk
    rw [List.getElem?_eq_some_iff] at hk'
    obtain ⟨hlt, heq⟩ := hk'
    rw [List.getElem_range] at heq
    subst heq
    rw [List.length_range] at hlt
    exact ⟨nodes k, (hbatch k (by omega)).2⟩
  · refine ⟨_, rangeNodes_flatten _ fun k hk => ?_, hnodup, hmem⟩
    rw [List.mem_range] at hk
    exact (hbatch k (by omega)).2.1
  · intro σ run s
    have hidx : indices 0 (set.size - ((K : Int) + 1)) =
        (List.range (L + 1 - K)).map fun k : Nat => (k : Int) := by
      rw [OrderedIntSet.size_eq hset, List.length_append, List.length_singleton, h.length, indices,
        show (((L + 1 + 1 : Nat) : Int) - ((K : Int) + 1) - 0).toNat = L + 1 - K by omega]
      simp
    rw [shareNodes, horder, ok_bind]
    simp only [hidx]
    apply foldlM_shareBatch
    intro k hk
    rw [List.mem_range] at hk
    exact (hbatch k (by omega)).1

/-! ## The labels that a run leaves -/

/-- There are label arrays for a node. -/
def HasLabels (Lab : Labels) (x : Int) : Prop :=
  (∃ hs, rd Lab.labelNodes x = .ok (some hs)) ∧ (∃ es, rd Lab.labelEdges x = .ok (some es)) ∧
    ∃ ds, rd Lab.labelDist x = .ok (some ds)

/-- There are none. -/
def NoLabels (Lab : Labels) (x : Int) : Prop :=
  rd Lab.labelNodes x = .ok none ∧ rd Lab.labelEdges x = .ok none ∧ rd Lab.labelDist x = .ok none

/-- The nodes in `P` have labels and the others have not. -/
structure Only (n : Nat) (Lab : Labels) (P : Int → Prop) : Prop where
  sized : Lab.Sized n
  has : ∀ x : Int, 0 ≤ x → x < n → P x → HasLabels Lab x
  none : ∀ x : Int, 0 ≤ x → x < n → ¬ P x → NoLabels Lab x

variable {Lab Lab' : Labels} {P Q : Int → Prop} {E : Edges} {D : DynamicGrid}

theorem Only.congr (h : Only n Lab P) (hPQ : ∀ x, P x ↔ Q x) : Only n Lab Q := by
  obtain rfl : P = Q := funext fun x => propext (hPQ x)
  exact h

theorem only_new (n : Nat) : Only n (Labels.new n) (fun _ => False) := by
  refine ⟨⟨by simp [Labels.new], by simp [Labels.new], by simp [Labels.new]⟩, fun _ _ _ h => h.elim,
    ?_⟩
  intro x h0 h1 _
  have hrep : rd (List.replicate n (none : Option (List Int))) x = .ok none := by
    obtain ⟨y, hy⟩ := exists_rd (a := List.replicate n (none : Option (List Int))) h0
      (by simpa using h1)
    rw [hy, List.eq_of_mem_replicate (mem_of_rd hy)]
  exact ⟨hrep, hrep, hrep⟩

/-- One node. -/
theorem Only.calcLabels (h : Only n Lab P) {t t' : HLDijkstra} {u : Int}
    (hrun : HLDijkstra.calcLabels E D levels (t, Lab) u = .ok (t', Lab')) :
    Only n Lab' (fun x => P x ∨ x = u) := by
  simp only [HLDijkstra.calcLabels, HLDijkstra.addLabels, Labels.addLabels, bind_eq_ok, pure_eq_ok,
    Except.ok.injEq, Prod.mk.injEq] at hrun
  obtain ⟨_, _, _, _, _, _, _, _, _, _, _, _, _, _, _, _, hs, _, es, _, ds, _, _,
    ⟨nodes, hnodes, edges, hedges, dist, hdist, rfl⟩, _, rfl⟩ := hrun
  refine ⟨⟨?_, ?_, ?_⟩, ?_, ?_⟩
  · exact (length_of_wr hnodes).trans h.sized.nodes
  · exact (length_of_wr hedges).trans h.sized.edges
  · exact (length_of_wr hdist).trans h.sized.dists
  · intro x h0 h1 hx
    simp only [HasLabels, rd_of_wr hnodes, rd_of_wr hedges, rd_of_wr hdist]
    by_cases hxu : x = u
    · simp [hxu]
    · simp only [if_neg hxu]
      exact h.has x h0 h1 (hx.resolve_right hxu)
  · intro x h0 h1 hx
    have hxu : x ≠ u := fun heq => hx (Or.inr heq)
    simp only [NoLabels, rd_of_wr hnodes, rd_of_wr hedges, rd_of_wr hdist, if_neg hxu]
    exact h.none x h0 h1 fun hP => hx (Or.inl hP)

/-- The nodes of one thread. -/
theorem Only.run (h : Only n Lab P) {lo hi : Int}
    (hrun : HLDijkstra.run E D levels order Lab lo hi = .ok Lab') :
    Only n Lab' (fun x => P x ∨ ∃ i ∈ indices lo hi, rd order i = .ok x) := by
  simp only [HLDijkstra.run, bind_eq_ok, pure_eq_ok, Except.ok.injEq] at hrun
  obtain ⟨⟨t, _⟩, hfold, rfl⟩ := hrun
  refine foldlM_inv (P := fun pre st => Only n st.2 (fun x => P x ∨ ∃ i ∈ pre, rd order i = .ok x))
    _ _ _ (h.congr (by simp)) hfold ?_
  intro pre i post st st' _ hst hstep
  rw [bind_eq_ok] at hstep
  obtain ⟨u, hu, hstep⟩ := hstep
  apply (Only.calcLabels (t := st.1) hst hstep).congr
  intro x
  simp only [List.mem_append, List.mem_singleton, or_assoc]
  apply or_congr_right
  constructor
  · intro hx
    rcases hx with ⟨j, hj, hx⟩ | rfl
    · exact ⟨j, Or.inl hj, hx⟩
    · exact ⟨i, Or.inr rfl, hu⟩
  · intro hx
    obtain ⟨j, hj | rfl, hx⟩ := hx
    · exact Or.inl ⟨j, hj, hx⟩
    · rw [hu, Except.ok.injEq] at hx
      exact Or.inr hx.symm

/-- The nodes of all threads. -/
theorem Only.batches {batches : List (List (Int × Int))} {us : List Int}
    (hus : rangeNodes order batches.flatten = .ok us)
    (hrun : batches.foldlM (fun L ranges => ranges.foldlM (runThread E D levels order) L)
      (Labels.new n) = .ok Lab) :
    Only n Lab (fun x => x ∈ us) := by
  have hflat : batches.flatten.foldlM (runThread E D levels order) (Labels.new n) = .ok Lab := by
    rw [← List.flatMap_id, ← foldlM_flatMap]
    exact hrun
  have hend : Only n Lab (fun x => ∃ j ∈ positions batches.flatten, rd order j = .ok x) := by
    refine foldlM_inv (P := fun pre L => Only n L (fun x => ∃ j ∈ positions pre, rd order j = .ok x))
      _ _ _ ((only_new n).congr (by simp [positions])) hflat ?_
    intro pre range post L₁ L₂ _ hL₁ hstep
    apply (Only.run hL₁ hstep).congr
    intro x
    rw [positions, positions, List.flatMap_append, List.flatMap_cons, List.flatMap_nil,
      List.append_nil]
    simp only [List.mem_append, or_and_right, exists_or]
  apply hend.congr
  intro x
  rw [mem_of_mapM hus]

/-- The levels and the cut that the router gets. -/
theorem levels_of_serialize {H : HubLEdges} {N : HubLNodes} {cut : Int}
    (h : HubLNodes.serializeHubLData cut levels E D Lab = .ok (H, N)) :
    N.levels = levels ∧ N.hlLevel = cut := by
  simp only [HubLNodes.serializeHubLData, HubLNodes.initEdgeInfo, HubLNodes.initLabelInfo,
    bind_eq_ok, pure_eq_ok, Except.ok.injEq, Prod.mk.injEq] at h
  obtain ⟨_, _, _, ⟨_, _, _, _, _, _, rfl⟩, _, ⟨_, _, _, _, _, _, _, _, _, _, _, _, rfl⟩, _, rfl⟩ := h
  exact ⟨rfl, rfl⟩

/-- The order, the ranges that the threads get and the labels that a run leaves, when
the levels `0` to `L` are in use.  `calcLabels` runs `HLDijkstra` once on each of the
ranges, as its loop does with any other thread in the place of `HLDijkstra`.  A node has
labels if and only if the router thinks so. -/
theorem calcLabels_handsOut (levels : List Int) (L K T : Nat)
    (hlevels : ∀ l : Int, l ∈ levels ↔ 0 ≤ l ∧ l ≤ L) (hT : 0 < T) :
    ∃ order set cs batches, createHLCalcOrder levels levels.length = .ok (order, set) ∧
      set.toArray = .ok (cs ++ [(levels.length : Int)]) ∧ Orders levels L order cs ∧
      HandsOut levels L K order batches ∧
      (∀ (σ : Type) (run : List Int → σ → Int × Int → Run σ) (s : σ),
        shareNodes run T K levels levels.length s =
          batches.foldlM (fun s ranges => ranges.foldlM (run order) s) s) ∧
      ∀ (E : Edges) (D : DynamicGrid),
        (∀ Lab, calcLabels T K E D levels levels.length Lab =
          batches.foldlM (fun Lab ranges => ranges.foldlM
            (fun Lab range => HLDijkstra.run E D levels order Lab range.1 range.2) Lab) Lab) ∧
        ∀ (Lab : Labels) (H : HubLEdges) (N : HubLNodes),
          calcLabels T K E D levels levels.length (Labels.new levels.length) = .ok Lab →
          HubLNodes.serializeHubLData K levels E D Lab = .ok (H, N) →
          ∀ x : Int, 0 ≤ x → x < levels.length →
            ((N.nodeHasLabels x = .ok true ∧ HasLabels Lab x) ∨
              N.nodeHasLabels x = .ok false ∧ NoLabels Lab x) := by
  obtain ⟨order, set, cs, hrun, hn, hs, hc, hset⟩ := createHLCalcOrder_spec rfl
    fun l hl => ((hlevels l).mp hl).1
  have horders := orders_of_levels hn hs hc hlevels
  obtain ⟨batches, hhands, hshare⟩ := shareNodes_of_levels hrun horders hT hset hlevels K
  refine ⟨order, set, cs, batches, hrun, OrderedIntSet.toArray_spec hset, horders, hhands, hshare,
    ?_⟩
  intro E D
  refine ⟨fun Lab => hshare Labels (runThread E D levels) Lab, ?_⟩
  intro Lab H N hcalc hser x h0 h1
  obtain ⟨hNlevels, hNlevel⟩ := levels_of_serialize hser
  obtain ⟨us, hus, _, hmem⟩ := hhands.all
  have honly := Only.batches hus ((hshare Labels (runThread E D levels) _).symm.trans hcalc)
  obtain ⟨l, hl⟩ := exists_rd (a := levels) h0 h1
  have hlevel : HLDijkstra.level levels x = l := by
    rw [HLDijkstra.level, hl]
    rfl
  have hhas : N.nodeHasLabels x = .ok (decide ((K : Int) ≤ l)) := by
    rw [HubLNodes.nodeHasLabels, hNlevels, hl, hNlevel]
    rfl
  rw [hhas]
  by_cases hK : (K : Int) ≤ l
  · left
    exact ⟨by rw [decide_eq_true hK],
      honly.has x h0 h1 ((hmem x).mpr ⟨⟨h0, h1⟩, by rw [hlevel]; exact hK⟩)⟩
  · right
    refine ⟨by rw [decide_eq_false hK], honly.none x h0 h1 ?_⟩
    intro hx
    have := ((hmem x).mp hx).2
    rw [hlevel] at this
    exact hK this

/-- Nine nodes on three levels.  With two threads and no labels on the lowest level, the
nodes 1, 4 and 6 of the middle level are shared among the two. -/
def forest : InputGraph :=
  InputGraph.ofEdges 9 [(0, 1, 1), (1, 2, 2), (1, 7, 1), (7, 8, 3), (3, 4, 1), (5, 6, 1)]

def forestLevels : List Int := [0, 1, 0, 0, 1, 0, 1, 0, 2]

theorem calcLabels_handsOut_forest :
    ∃ order set cs batches, createHLCalcOrder forestLevels 9 = .ok (order, set) ∧
      set.toArray = .ok (cs ++ [(9 : Int)]) ∧ Orders forestLevels 2 order cs ∧
      HandsOut forestLevels 2 1 order batches ∧
      (∀ (σ : Type) (run : List Int → σ → Int × Int → Run σ) (s : σ),
        shareNodes run 2 1 forestLevels 9 s =
          batches.foldlM (fun s ranges => ranges.foldlM (run order) s) s) ∧
      ∃ s Lab H N, calculateCH forest.edges forest.grid 9 [0, 3, 5, 2, 7, 1, 4, 6, 8] = .ok s ∧
        s.levels = forestLevels ∧
        calcLabels 2 1 s.edges s.grid s.levels 9 (Labels.new 9) = .ok Lab ∧
        HubLNodes.serializeHubLData 1 s.levels s.edges s.grid Lab = .ok (H, N) ∧
        ∀ x : Int, 0 ≤ x → x < (9 : Nat) →
          ((N.nodeHasLabels x = .ok true ∧ HasLabels Lab x) ∨
            N.nodeHasLabels x = .ok false ∧ NoLabels Lab x) := by
  obtain ⟨order, set, cs, batches, h1, h2, h3, h4, h5, h6⟩ :=
    calcLabels_handsOut forestLevels 2 1 2 (by
      intro l
      simp only [forestLevels, List.mem_cons, List.not_mem_nil, or_false]
      omega) (by decide)
  obtain ⟨s, hch, hrest⟩ := exists_of_map_toOption
    (x := calculateCH forest.edges forest.grid 9 [0, 3, 5, 2, 7, 1, 4, 6, 8])
    (p := fun s => decide (s.levels = forestLevels) &&
      ((calcLabels 2 1 s.edges s.grid s.levels 9 (Labels.new 9)).toOption.any fun Lab =>
        (HubLNodes.serializeHubLData 1 s.levels s.edges s.grid Lab).toOption.isSome))
    (by decide +kernel)
  rw [Bool.and_eq_true, decide_eq_true_iff] at hrest
  obtain ⟨hlevels, hany⟩ := hrest
  cases hlab : calcLabels 2 1 s.edges s.grid s.levels 9 (Labels.new 9) with
  | error e => simp [hlab, Except.toOption] at hany
  | ok Lab =>
    cases hser : HubLNodes.serializeHubLData 1 s.levels s.edges s.grid Lab with
    | error e => simp [hlab, hser, Except.toOption] at hany
    | ok data =>
      obtain ⟨H, N⟩ := data
      refine ⟨order, set, cs, batches, h1, h2, h3, h4, h5, s, Lab, H, N, hch, hlevels, hlab, hser, ?_⟩
      rw [hlevels] at hlab hser
      exact (h6 s.edges s.grid).2 Lab H N hlab hser

end LabelCreator

end SeaRouter
