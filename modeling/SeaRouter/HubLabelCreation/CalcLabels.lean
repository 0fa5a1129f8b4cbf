import SeaRouter.HubLabelCreation.CalcOrder
import SeaRouter.HubLabelCreation.Levels

/-!
# `hublablecreation/LabelCreator.java`: the label calculation

`calcLabels` calculates the labels level by level, from the highest one on, and
shares the nodes of a level among threads.  The threads of one level run one
after the other in `calcLabels`; `runSchedule` lets them take turns in any way,
a whole node at a time.

`process_spec` says why this makes no difference: the labels of a node depend
only on those of nodes that come before its level.  `batch_spec` is one level,
and `batches_spec` all levels down to a given one.
-/

namespace SeaRouter

open Java WGraph BinHeap

namespace LabelCreator

/-- The ranges of indices that the threads of one iteration get. -/
def threadRanges (numOfThreads : Nat) (startIdx endIdx : Int) : List (Int × Int) :=
  let minThreadNum := endIdx - startIdx
  if (numOfThreads : Int) < minThreadNum then
    let numOfNodes := minThreadNum / numOfThreads
    let (ranges, threadStartIdx) := (indices 1 numOfThreads).foldl
      (fun state _ => (state.1 ++ [(state.2, state.2 + numOfNodes)], state.2 + numOfNodes))
      (([], startIdx) : List (Int × Int) × Int)
    ranges ++ [(threadStartIdx, endIdx)]
  else (indices startIdx endIdx).map fun j => (j, j + 1)

/-- One iteration of the loop of `calcLabels()`: each range is given to a thread, and
`run` is what a thread does. -/
def shareBatch {σ : Type} (run : σ → Int × Int → Run σ) (numOfThreads : Nat)
    (changeIndices : OrderedIntSet) (s : σ) (i : Int) : Run σ := do
  let startIdx ← changeIndices.get i
  let endIdx ← changeIndices.get (i + 1)
  (threadRanges numOfThreads startIdx endIdx).foldlM run s

/-- The loop of `calcLabels()`, with `NUM_OF_THREADS` and `NUM_OF_NO_LABEL_LVLS` as
arguments.  The threads of one iteration run one after the other. -/
def shareNodes {σ : Type} (run : List Int → σ → Int × Int → Run σ) (numOfThreads : Nat)
    (numOfNoLabelLvls : Nat) (levels : List Int) (nodeCount : Nat) (s : σ) : Run σ := do
  let (calcOrder, changeIndices) ← createHLCalcOrder levels nodeCount
  -- not all levels receive labels in order to save memory
  let maxCalcIdx := changeIndices.size - (numOfNoLabelLvls + 1)
  (indices 0 maxCalcIdx).foldlM (shareBatch (run calcOrder) numOfThreads changeIndices) s

/-- What the threads of `calcLabels()` do to the labels. -/
def runThread (E : Edges) (D : DynamicGrid) (levels calcOrder : List Int) (L : Labels)
    (range : Int × Int) : Run Labels :=
  HLDijkstra.run E D levels calcOrder L range.1 range.2

/-- One iteration of `calcLabels()`. -/
def calcBatch (numOfThreads : Nat) (E : Edges) (D : DynamicGrid) (levels calcOrder : List Int)
    (changeIndices : OrderedIntSet) (L : Labels) (i : Int) : Run Labels :=
  shareBatch (runThread E D levels calcOrder) numOfThreads changeIndices L i

/-- `calcLabels()`. -/
def calcLabels (numOfThreads : Nat) (numOfNoLabelLvls : Nat) (E : Edges) (D : DynamicGrid)
    (levels : List Int) (nodeCount : Nat) (L : Labels) : Run Labels :=
  shareNodes (runThread E D levels) numOfThreads numOfNoLabelLvls levels nodeCount L

/-! ## Threads that take turns -/

/-- A call of `calcLabels(node)` by one of the threads. -/
def scheduleStep (E : Edges) (D : DynamicGrid) (levels : List Int)
    (state : (Nat → HLDijkstra) × Labels) (call : Nat × Int) :
    Run ((Nat → HLDijkstra) × Labels) := do
  let (t, L) ← HLDijkstra.calcLabels E D levels (state.1 call.1, state.2) call.2
  return (Function.update state.1 call.1 t, L)

/-- The threads of one level take turns: each element of the schedule is a
thread and the node that it calculates next. -/
def runSchedule (E : Edges) (D : DynamicGrid) (levels : List Int) (L : Labels)
    (schedule : List (Nat × Int)) : Run Labels := do
  let (_, L) ← schedule.foldlM (scheduleStep E D levels) (fun _ => HLDijkstra.new, L)
  return L

/-- One schedule for each level that gets labels: it calculates each node of the
level once. -/
def IsSchedule (calcOrder : List Int) (changeIndices : OrderedIntSet) (numOfNoLabelLvls : Nat)
    (schedules : List (List (Nat × Int))) : Prop :=
  (schedules.length : Int) = max 0 (changeIndices.size - (numOfNoLabelLvls + 1)) ∧
  ∀ (k : Nat) (schedule : List (Nat × Int)), schedules[k]? = some schedule →
    ∃ lo hi : Nat, changeIndices.get k = .ok (lo : Int) ∧
      changeIndices.get (k + 1) = .ok (hi : Int) ∧
      (schedule.map Prod.snd).Perm ((calcOrder.take hi).drop lo)

/-! ## The threads of a level -/

/-- The ranges of the threads are the range of the level, in order. -/
theorem threadRanges_flatMap {numOfThreads : Nat} (hT : 0 < numOfThreads) {lo hi : Nat}
    (hle : lo ≤ hi) :
    (threadRanges numOfThreads lo hi).flatMap (fun range => indices range.1 range.2)
      = indices lo hi := by
  have hjoin : ∀ a b c : Int, a ≤ b → b ≤ c → indices a b ++ indices b c = indices a c := by
    intro a b c hab hbc
    have h1 : (c - a).toNat = (b - a).toNat + (c - b).toNat := by omega
    rw [indices, indices, indices, h1, List.range_add, List.map_append, List.map_map]
    congr 1
    apply List.map_congr_left
    intro k _
    simp only [Function.comp_apply]
    push_cast
    omega
  have hone : ∀ a : Int, indices a (a + 1) = [a] := by
    intro a
    rw [indices, show (a + 1 - a).toNat = 1 by omega]
    simp
  unfold threadRanges
  simp only
  split_ifs with hmany
  · -- the first threads get equal shares, the last one the rest
    have hshare : ∀ (q : Int), 0 ≤ q → ∀ (js : List Int), (lo : Int) + js.length * q ≤ hi →
        ((js.foldl (fun state _ => (state.1 ++ [(state.2, state.2 + q)], state.2 + q))
            (([], (lo : Int)) : List (Int × Int) × Int)).2 = lo + js.length * q) ∧
        ((js.foldl (fun state _ => (state.1 ++ [(state.2, state.2 + q)], state.2 + q))
            (([], (lo : Int)) : List (Int × Int) × Int)).1.flatMap
              (fun range => indices range.1 range.2) = indices lo (lo + js.length * q)) := by
      intro q hq js
      induction js using List.reverseRecOn with
      | nil =>
        intro _
        simp [indices]
      | append_singleton js j ih =>
        intro hbound
        rw [List.length_append, List.length_singleton] at hbound ⊢
        push_cast at hbound ⊢
        have hexp : (lo : Int) + ((js.length : Int) + 1) * q = lo + js.length * q + q := by ring
        rw [hexp] at hbound ⊢
        obtain ⟨h1, h2⟩ := ih (by omega)
        rw [List.foldl_append]
        simp only [List.foldl_cons, List.foldl_nil, List.flatMap_append, List.flatMap_cons,
          List.flatMap_nil, List.append_nil, h1, h2]
        refine ⟨trivial, hjoin _ _ _ ?_ (by omega)⟩
        have := mul_nonneg (Int.natCast_nonneg js.length) hq
        omega
    have hq : (0 : Int) ≤ ((hi : Int) - lo) / numOfThreads :=
      Int.ediv_nonneg (by omega) (by omega)
    have hlen : ((indices 1 numOfThreads).length : Int) = numOfThreads - 1 := by
      rw [indices, List.length_map, List.length_range]
      omega
    have hmul := Int.ediv_mul_le ((hi : Int) - lo) (b := numOfThreads) (by omega)
    have hsub : ((numOfThreads : Int) - 1) * (((hi : Int) - lo) / numOfThreads)
        = ((hi : Int) - lo) / numOfThreads * numOfThreads - ((hi : Int) - lo) / numOfThreads := by
      ring
    have hbound : (lo : Int) + (indices 1 numOfThreads).length * (((hi : Int) - lo) / numOfThreads)
        ≤ hi := by
      rw [hlen, hsub]
      omega
    obtain ⟨h1, h2⟩ := hshare _ hq (indices 1 numOfThreads) hbound
    rw [List.flatMap_append, h2, List.flatMap_cons, List.flatMap_nil, List.append_nil, h1]
    apply hjoin _ _ _ _ hbound
    have := mul_nonneg (Int.natCast_nonneg (indices 1 numOfThreads).length) hq
    omega
  · rw [List.flatMap_map]
    simp only [hone]
    exact List.flatMap_singleton' _

/-! ## The nodes of a level -/

/-- The labels with those of the nodes `us` added, which `H` gives. -/
def putAll (H : Int → List Int × List Int × List Int) (L : Labels) (us : List Int) : Labels :=
  us.foldl (fun L u => L.put u (H u).1 (H u).2.1 (H u).2.2) L

theorem putAll_snoc (H : Int → List Int × List Int × List Int) (L : Labels) (us : List Int)
    (u : Int) :
    putAll H L (us ++ [u]) = (putAll H L us).put u (H u).1 (H u).2.1 (H u).2.2 := by
  rw [putAll, List.foldl_append]
  rfl

/-- The order of the nodes makes no difference. -/
theorem putAll_perm {H : Int → List Int × List Int × List Int} {us vs : List Int}
    (hnn : ∀ u ∈ us, 0 ≤ u) (hperm : us.Perm vs) (L : Labels) : putAll H L us = putAll H L vs := by
  apply hperm.foldl_eq'
  intro u hu v hv L
  by_cases huv : u = v
  · rw [huv]
  · have h1 := hnn u hu
    have h2 := hnn v hv
    have hne : u.toNat ≠ v.toNat := by omega
    simp only [Labels.put]
    rw [List.set_comm _ _ hne, List.set_comm _ _ hne, List.set_comm _ _ hne]

theorem putAll_sized {H : Int → List Int × List Int × List Int} {L : Labels} {n : Nat}
    (h : L.Sized n) (us : List Int) : (putAll H L us).Sized n := by
  induction us using List.reverseRecOn with
  | nil => exact h
  | append_singleton us u ih =>
    rw [putAll_snoc]
    exact ih.put _ _ _ _

theorem row_putAll {H : Int → List Int × List Int × List Int} {L : Labels} {n : Nat}
    (h : L.Sized n) {us : List Int} (hus : ∀ u ∈ us, 0 ≤ u ∧ u < n) {x : Int}
    {hs es ds : List Int} :
    HLDijkstra.Row (putAll H L us) x hs es ds ↔
      if x ∈ us then hs = (H x).1 ∧ es = (H x).2.1 ∧ ds = (H x).2.2
      else HLDijkstra.Row L x hs es ds := by
  induction us using List.reverseRecOn with
  | nil =>
    rw [if_neg (List.not_mem_nil)]
    rfl
  | append_singleton us u ih =>
    obtain ⟨h0, h1⟩ := hus u (by simp)
    rw [putAll_snoc, HLDijkstra.row_put (putAll_sized h us) h0 h1,
      ih fun v hv => hus v (List.mem_append_left _ hv)]
    by_cases hxu : x = u
    · rw [if_pos hxu, if_pos (by simp [hxu]), hxu]
    · rw [if_neg hxu]
      by_cases hx : x ∈ us
      · rw [if_pos hx, if_pos (List.mem_append_left _ hx)]
      · rw [if_neg hx, if_neg (by simp [hx, hxu])]

section process

variable {n : Nat} {E : Edges} {D : DynamicGrid} {levels : List Int}
  {G : Int → Int → Int → Prop} {S : Int → Prop} {L : Labels}

/-- The labels `H` are those that `calcLabels` finds for the nodes `us`, from
the labels of the nodes in `S`. -/
structure Computes (G : Int → Int → Int → Prop) (n : Nat) (E : Edges) (D : DynamicGrid)
    (levels : List Int) (S : Int → Prop) (L : Labels) (us : List Int)
    (H : Int → List Int × List Int × List Int) : Prop where
  node : ∀ u ∈ us, (0 ≤ u ∧ u < n) ∧ ¬ S u
  fair : ∀ u ∈ us, HLDijkstra.Fair G E D levels S u (H u).1 (H u).2.1 (H u).2.2
  canonical : ∀ u ∈ us, ∀ U, Ranked G U (HLDijkstra.level levels) →
    HLDijkstra.Launches G E D levels u →
    (∀ x hs es ds, S x → HLDijkstra.Row L x hs es ds →
      HLDijkstra.Canonical G (HLDijkstra.level levels) x hs ds) →
    HLDijkstra.Canonical G (HLDijkstra.level levels) u (H u).1 (H u).2.2
  run : ∀ u ∈ us, ∀ L' t, HLDijkstra.Agree S L L' → L'.Sized n → HLDijkstra.Ready t →
    ∃ t', HLDijkstra.calcLabels E D levels (t, L') u
        = .ok (t', L'.put u (H u).1 (H u).2.1 (H u).2.2) ∧ HLDijkstra.Ready t'

theorem exists_computes (hU : HLDijkstra.Upward n E D levels)
    (hL : HLDijkstra.Labelled G n E D levels S L)
    (hwalk : ∀ x, ∀ e ∈ HLDijkstra.ups E D levels x, Walk G x (E.destOf e) (E.distOf e))
    {us : List Int} (hus : ∀ u ∈ us, (0 ≤ u ∧ u < n) ∧ ¬ S u ∧
      ∀ e ∈ HLDijkstra.ups E D levels u, S (E.destOf e)) :
    ∃ H, Computes G n E D levels S L us H := by
  classical
  have hspec : ∀ u : Int, ∃ r : List Int × List Int × List Int, u ∈ us →
      HLDijkstra.Fair G E D levels S u r.1 r.2.1 r.2.2 ∧
      (∀ U, Ranked G U (HLDijkstra.level levels) → HLDijkstra.Launches G E D levels u →
        (∀ x hs es ds, S x → HLDijkstra.Row L x hs es ds →
          HLDijkstra.Canonical G (HLDijkstra.level levels) x hs ds) →
        HLDijkstra.Canonical G (HLDijkstra.level levels) u r.1 r.2.2) ∧
      ∀ L' t, HLDijkstra.Agree S L L' → L'.Sized n → HLDijkstra.Ready t →
        ∃ t', HLDijkstra.calcLabels E D levels (t, L') u = .ok (t', L'.put u r.1 r.2.1 r.2.2) ∧
          HLDijkstra.Ready t' := by
    intro u
    by_cases hu : u ∈ us
    · obtain ⟨⟨h0, h1⟩, _, hS⟩ := hus u hu
      obtain ⟨hs, es, ds, hfair, hcan, hrun⟩ := HLDijkstra.calcLabels_spec hU hL hwalk h0 h1 hS
      exact ⟨(hs, es, ds), fun _ => ⟨hfair, hcan, hrun⟩⟩
    · exact ⟨([], [], []), fun h => absurd h hu⟩
  choose H hH using hspec
  exact ⟨H, fun u hu => ⟨(hus u hu).1, (hus u hu).2.1⟩, fun u hu => (hH u hu).1,
    fun u hu => (hH u hu).2.1, fun u hu => (hH u hu).2.2⟩

variable {us : List Int} {H : Int → List Int × List Int × List Int}

/-- Labels of new nodes do not change those of the nodes in `S`. -/
theorem Computes.agree (h : Computes G n E D levels S L us H) (hsized : L.Sized n)
    {vs : List Int} (hvs : ∀ v ∈ vs, v ∈ us) : HLDijkstra.Agree S L (putAll H L vs) := by
  intro x hs es ds hx hrow
  rw [row_putAll hsized fun v hv => (h.node v (hvs v hv)).1, if_neg]
  · exact hrow
  · intro hmem
    exact (h.node x (hvs x hmem)).2 hx

/-- The threads calculate the nodes of the schedule in any order. -/
theorem Computes.runSchedule (h : Computes G n E D levels S L us H) (hsized : L.Sized n)
    (schedule : List (Nat × Int)) (hvs : ∀ call ∈ schedule, call.2 ∈ us) :
    LabelCreator.runSchedule E D levels L schedule
      = .ok (putAll H L (schedule.map Prod.snd)) := by
  obtain ⟨⟨threads, L'⟩, hrun, hL', _⟩ := foldlM_spec (f := scheduleStep E D levels)
    (P := fun pre st => st.2 = putAll H L (pre.map Prod.snd) ∧ ∀ k, HLDijkstra.Ready (st.1 k))
    schedule (fun _ => HLDijkstra.new, L) ⟨rfl, fun _ => HLDijkstra.ready_new⟩ (by
      rintro pre ⟨k, u⟩ post ⟨threads, L'⟩ hl ⟨rfl, hready⟩
      have hmem : ∀ v ∈ pre.map Prod.snd, v ∈ us := by
        intro v hv
        obtain ⟨call, hcall, rfl⟩ := List.mem_map.mp hv
        exact hvs call (by rw [hl]; exact List.mem_append_left _ hcall)
      obtain ⟨t', hcalc, ht'⟩ := h.run u (hvs (k, u) (by rw [hl]; simp)) _ (threads k)
        (h.agree hsized hmem) (putAll_sized hsized _) (hready k)
      refine ⟨(Function.update threads k t', putAll H L ((pre ++ [(k, u)]).map Prod.snd)), ?_,
        rfl, ?_⟩
      · unfold scheduleStep
        simp only [hcalc, ok_bind, pure_eq_ok, List.map_append, List.map_cons, List.map_nil,
          putAll_snoc]
      · intro j
        by_cases hj : j = k
        · subst hj
          simp only [Function.update_self]
          exact ht'
        · simp only [Function.update_of_ne hj]
          exact hready j)
  unfold LabelCreator.runSchedule
  rw [hrun, ok_bind]
  simp only at hL'
  rw [hL']
  rfl

/-- A thread calculates the nodes of its range. -/
theorem Computes.run_range (h : Computes G n E D levels S L us H) (hsized : L.Sized n)
    {order vs : List Int} (hvs : ∀ v ∈ vs, v ∈ us) {node : Int → Int} {lo hi : Int}
    (hnode : ∀ i ∈ indices lo hi, rd order i = .ok (node i) ∧ node i ∈ us) :
    HLDijkstra.run E D levels order (putAll H L vs) lo hi
      = .ok (putAll H L (vs ++ (indices lo hi).map node)) := by
  obtain ⟨⟨t, L'⟩, hrun, hL', _⟩ := foldlM_spec
    (f := fun state nodeIdx => do HLDijkstra.calcLabels E D levels state (← rd order nodeIdx))
    (P := fun pre st => st.2 = putAll H L (vs ++ pre.map node) ∧ HLDijkstra.Ready st.1)
    (indices lo hi) (HLDijkstra.new, putAll H L vs)
    ⟨by rw [List.map_nil, List.append_nil], HLDijkstra.ready_new⟩ (by
      rintro pre i post ⟨t, L'⟩ hl ⟨rfl, hready⟩
      obtain ⟨hrd, hmem⟩ := hnode i (by rw [hl]; simp)
      have hall : ∀ v ∈ vs ++ pre.map node, v ∈ us := by
        intro v hv
        rcases List.mem_append.mp hv with hv | hv
        · exact hvs v hv
        · obtain ⟨j, hj, rfl⟩ := List.mem_map.mp hv
          exact (hnode j (by rw [hl]; exact List.mem_append_left _ hj)).2
      obtain ⟨t', hcalc, ht'⟩ := h.run (node i) hmem _ t (h.agree hsized hall)
        (putAll_sized hsized _) hready
      refine ⟨(t', putAll H L (vs ++ (pre ++ [i]).map node)), ?_, rfl, ht'⟩
      rw [hrd, ok_bind, hcalc, List.map_append, ← List.append_assoc, List.map_cons, List.map_nil,
        putAll_snoc])
  unfold HLDijkstra.run
  rw [hrun, ok_bind]
  simp only at hL'
  rw [hL']
  rfl

/-- The threads of one iteration, one after the other. -/
theorem Computes.run_ranges (h : Computes G n E D levels S L us H) (hsized : L.Sized n)
    {order : List Int} (node : Int → Int) (ranges : List (Int × Int))
    (hnode : ∀ range ∈ ranges, ∀ i ∈ indices range.1 range.2,
      rd order i = .ok (node i) ∧ node i ∈ us) :
    ranges.foldlM (runThread E D levels order) L
      = .ok (putAll H L ((ranges.flatMap fun range => indices range.1 range.2).map node)) := by
  obtain ⟨L', hrun, hL'⟩ := foldlM_spec
    (f := runThread E D levels order)
    (P := fun pre L' => L' = putAll H L ((pre.flatMap fun range => indices range.1 range.2).map node))
    ranges L rfl (by
      rintro pre range post L' hl rfl
      refine ⟨_, h.run_range hsized ?_ (hnode range (by rw [hl]; simp)), ?_⟩
      · intro v hv
        obtain ⟨i, hi, rfl⟩ := List.mem_map.mp hv
        obtain ⟨range', hrange', hi'⟩ := List.mem_flatMap.mp hi
        exact (hnode range' (by rw [hl]; exact List.mem_append_left _ hrange') i hi').2
      · rw [List.flatMap_append, List.map_append, List.flatMap_cons, List.flatMap_nil,
          List.append_nil])
  rw [hrun, hL']

/-- The nodes of the level have their labels then. -/
theorem Computes.labelled (h : Computes G n E D levels S L us H) (hsized : L.Sized n)
    (hL : HLDijkstra.Labelled G n E D levels S L) :
    HLDijkstra.Labelled G n E D levels (fun x => S x ∨ x ∈ us) (putAll H L us) := by
  have hmono : ∀ u hs es ds, HLDijkstra.Fair G E D levels S u hs es ds →
      HLDijkstra.Fair G E D levels (fun x => S x ∨ x ∈ us) u hs es ds := by
    intro u hs es ds hf
    refine ⟨hf.rows, hf.self, hf.selfEdge, ?_, hf.reach⟩
    intro x hx
    exact (hf.member x hx).imp id fun hSx => ⟨Or.inl hSx.1, hSx.2⟩
  have hnode : ∀ u ∈ us, 0 ≤ u ∧ u < n := fun u hu => (h.node u hu).1
  intro x hx
  by_cases hus : x ∈ us
  · refine ⟨hnode x hus, (H x).1, (H x).2.1, (H x).2.2, ?_, hmono _ _ _ _ (h.fair x hus)⟩
    rw [row_putAll hsized hnode, if_pos hus]
    exact ⟨rfl, rfl, rfl⟩
  · obtain ⟨hx', hs, es, ds, hrow, hf⟩ := hL x (hx.resolve_right hus)
    refine ⟨hx', hs, es, ds, ?_, hmono _ _ _ _ hf⟩
    rw [row_putAll hsized hnode, if_neg hus]
    exact hrow

end process

/-! ## All levels -/

section batches

variable {n : Nat} {E : Edges} {D : DynamicGrid} {levels order : List Int}
  {G : Int → Int → Int → Prop} {L : Labels}

/-- The node is at a position before `m`. -/
def Before (order : List Int) (m : Nat) (x : Int) : Prop :=
  ∃ p : Nat, p < m ∧ p < order.length ∧ idAt order p = x

/-- The nodes before the position `m` have their labels, and no others. -/
structure Done (G : Int → Int → Int → Prop) (n : Nat) (E : Edges) (D : DynamicGrid)
    (levels order : List Int) (m : Nat) (L : Labels) : Prop where
  sized : L.Sized n
  labelled : HLDijkstra.Labelled G n E D levels (Before order m) L
  canonical : ∀ U, Ranked G U (HLDijkstra.level levels) →
    (∀ u, Before order m u → HLDijkstra.Launches G E D levels u) →
    ∀ x hs es ds, Before order m x → HLDijkstra.Row L x hs es ds →
      HLDijkstra.Canonical G (HLDijkstra.level levels) x hs ds
  none : ∀ x : Int, 0 ≤ x → x < n → ¬ Before order m x → rd L.labelNodes x = .ok none ∧
    rd L.labelEdges x = .ok none ∧ rd L.labelDist x = .ok none

theorem done_new (G : Int → Int → Int → Prop) (n : Nat) (E : Edges) (D : DynamicGrid)
    (levels order : List Int) : Done G n E D levels order 0 (Labels.new n) where
  sized := by constructor <;> simp [Labels.new]
  labelled := by
    intro x hx
    obtain ⟨p, hp, _⟩ := hx
    omega
  canonical := by
    intro U _ _ x hs es ds hx
    obtain ⟨p, hp, _⟩ := hx
    omega
  none := by
    intro x h0 h1 _
    have hrep : rd (List.replicate n (none : Option (List Int))) x = .ok none := by
      obtain ⟨y, hy⟩ := exists_rd (a := List.replicate n (none : Option (List Int))) h0
        (by simpa using h1)
      rw [hy, List.eq_of_mem_replicate (mem_of_rd hy)]
    exact ⟨hrep, hrep, hrep⟩

theorem take_drop_eq (hlen : order.length = n) {lo hi : Nat} (hle : lo ≤ hi) (hhi : hi ≤ n) :
    (order.take hi).drop lo = (indices lo hi).map fun i => idAt order i.toNat := by
  apply List.ext_getElem?
  intro k
  rw [List.getElem?_drop, List.getElem?_map, indices]
  have hnum : ((hi : Int) - lo).toNat = hi - lo := by omega
  rw [hnum, List.getElem?_map]
  by_cases hk : k < hi - lo
  · have hlt : lo + k < order.length := by omega
    rw [List.getElem?_take_of_lt (by omega), List.getElem?_range hk, List.getElem?_eq_getElem hlt,
      ← idAt_eq_getElem hlt]
    simp only [Option.map_some]
    congr 2
  · rw [List.getElem?_eq_none (by rw [List.length_take]; omega),
      List.getElem?_eq_none (by rw [List.length_range]; omega)]
    rfl

/-- The labels that are not there are not changed. -/
theorem rd_putAll_none {H : Int → List Int × List Int × List Int} (hsized : L.Sized n)
    {us : List Int} (hus : ∀ u ∈ us, 0 ≤ u ∧ u < n) {x : Int} (hx : x ∉ us) :
    rd (putAll H L us).labelNodes x = rd L.labelNodes x ∧
      rd (putAll H L us).labelEdges x = rd L.labelEdges x ∧
      rd (putAll H L us).labelDist x = rd L.labelDist x := by
  induction us using List.reverseRecOn with
  | nil => exact ⟨rfl, rfl, rfl⟩
  | append_singleton us u ih =>
    obtain ⟨h0, h1⟩ := hus u (by simp)
    obtain ⟨i1, i2, i3⟩ := ih (fun v hv => hus v (List.mem_append_left _ hv))
      fun hmem => hx (List.mem_append_left _ hmem)
    have hne : x ≠ u := fun heq => hx (by simp [heq])
    have hs := putAll_sized (H := H) hsized us
    rw [putAll_snoc]
    refine ⟨?_, ?_, ?_⟩
    · exact (rd_set h0 (by rw [hs.nodes]; exact h1)).trans (by rw [if_neg hne, i1])
    · exact (rd_set h0 (by rw [hs.edges]; exact h1)).trans (by rw [if_neg hne, i2])
    · exact (rd_set h0 (by rw [hs.dists]; exact h1)).trans (by rw [if_neg hne, i3])

/-- The nodes at the positions from `lo` up to `hi`. -/
def nodesBetween (order : List Int) (lo hi : Nat) : List Int :=
  (indices lo hi).map fun i => idAt order i.toNat

theorem mem_nodesBetween {lo hi : Nat} {u : Int} :
    u ∈ nodesBetween order lo hi ↔ ∃ q : Nat, lo ≤ q ∧ q < hi ∧ idAt order q = u := by
  rw [nodesBetween, List.mem_map]
  constructor
  · intro hex
    obtain ⟨i, hi', rfl⟩ := hex
    have := mem_indices.mp hi'
    exact ⟨i.toNat, by omega, by omega, rfl⟩
  · intro hex
    obtain ⟨q, hq0, hq1, rfl⟩ := hex
    exact ⟨q, mem_indices.mpr ⟨by omega, by omega⟩, by simp⟩

theorem Nodes.idAt_inj (hn : Nodes n levels order) {p q : Nat} (hp : p < n) (hq : q < n)
    (heq : idAt order p = idAt order q) : p = q := by
  have hlen := hn.length
  have hnodup : order.Nodup := by
    apply hn.perm.nodup_iff.mpr
    rw [indices]
    apply List.Nodup.map _ List.nodup_range
    intro a b hab
    simpa using hab
  rw [idAt_eq_getElem (by omega), idAt_eq_getElem (by omega)] at heq
  exact (List.Nodup.getElem_inj_iff hnodup).mp heq

theorem before_iff {lo hi : Nat} (hle : lo ≤ hi) (hhi : hi ≤ order.length) {x : Int} :
    Before order hi x ↔ Before order lo x ∨ x ∈ nodesBetween order lo hi := by
  rw [mem_nodesBetween]
  constructor
  · intro hex
    obtain ⟨p, hp, hpl, heq⟩ := hex
    by_cases hplo : p < lo
    · exact Or.inl ⟨p, hplo, hpl, heq⟩
    · exact Or.inr ⟨p, by omega, hp, heq⟩
  · intro hor
    rcases hor with ⟨p, hp, hpl, heq⟩ | ⟨q, hq0, hq1, heq⟩
    · exact ⟨p, by omega, hpl, heq⟩
    · exact ⟨q, hq1, by omega, heq⟩

/-- The edges of a level lead upwards to nodes that come before it. -/
theorem nodesBetween_ready {cs : List Int} {k lo hi : Nat} (hU : HLDijkstra.Upward n E D levels)
    (hn : Nodes n levels order) (hs : SortedFrom levels order 0) (hc : Changes levels order n cs)
    (hb : Batch n cs k lo hi) (hhi : hi ≤ n) :
    ∀ u ∈ nodesBetween order lo hi, (0 ≤ u ∧ u < n) ∧ ¬ Before order lo u ∧
      ∀ e ∈ HLDijkstra.ups E D levels u, Before order lo (E.destOf e) := by
  have hlen := hn.length
  intro u hu
  obtain ⟨q, hq0, hq1, rfl⟩ := mem_nodesBetween.mp hu
  refine ⟨hn.node (idAt_mem (by omega)), ?_, ?_⟩
  · intro hbefore
    obtain ⟨p, hp, hpl, heq⟩ := hbefore
    have := hn.idAt_inj (by omega) (by omega) heq
    omega
  · intro e he
    obtain ⟨hall, hup⟩ := (HLDijkstra.mem_ups hU).mp he
    have hd := (hU.edge _ e hall).2.2
    have hdm : E.destOf e ∈ order := hn.perm.mem_iff.mpr (mem_indices.mpr hd)
    obtain ⟨p, hp, heq⟩ := exists_idAt_of_mem hdm
    refine ⟨p, ?_, hp, heq⟩
    apply hb.before hc hs hlen hhi hq1 (p := p) (by omega)
    rw [levelAt, levelAt, heq]
    exact hup

/-- The labels of a level are added to those of the levels above. -/
theorem Done.putAll {lo hi : Nat} {H : Int → List Int × List Int × List Int}
    (h : Done G n E D levels order lo L) (hle : lo ≤ hi) (hhi : hi ≤ order.length)
    (hH : Computes G n E D levels (Before order lo) L (nodesBetween order lo hi) H) :
    Done G n E D levels order hi (putAll H L (nodesBetween order lo hi)) := by
  have hnode : ∀ u ∈ nodesBetween order lo hi, 0 ≤ u ∧ u < n := fun u hu => (hH.node u hu).1
  have hset_eq : (fun x => Before order lo x ∨ x ∈ nodesBetween order lo hi) = Before order hi := by
    funext x
    exact propext (before_iff hle hhi).symm
  refine ⟨putAll_sized h.sized _, ?_, ?_, ?_⟩
  · rw [← hset_eq]
    exact hH.labelled h.sized h.labelled
  · intro U hR hlaunch x hs' es ds hx hrow
    rw [row_putAll h.sized hnode] at hrow
    have hold := h.canonical U hR fun u hu => hlaunch u ((before_iff hle hhi).mpr (Or.inl hu))
    by_cases hxu : x ∈ nodesBetween order lo hi
    · rw [if_pos hxu] at hrow
      obtain ⟨rfl, rfl, rfl⟩ := hrow
      exact hH.canonical x hxu U hR (hlaunch x hx) hold
    · rw [if_neg hxu] at hrow
      exact hold x hs' es ds (((before_iff hle hhi).mp hx).resolve_right hxu) hrow
  · intro x h0 h1 hx
    rw [before_iff hle hhi, not_or] at hx
    obtain ⟨h2, h3, h4⟩ := rd_putAll_none (H := H) h.sized hnode hx.2
    rw [h2, h3, h4]
    exact h.none x h0 h1 hx.1

/-- The threads of one level add the labels of its nodes, each to those before. -/
theorem Computes.calcBatch {set : OrderedIntSet} {cs : List Int} {k lo hi : Nat} {S : Int → Prop}
    {H : Int → List Int × List Int × List Int}
    (h : Computes G n E D levels S L (nodesBetween order lo hi) H) (hsized : L.Sized n)
    (hn : Nodes n levels order) (hset : OrderedIntSet.Holds set (cs ++ [(n : Int)]))
    (hb : Batch n cs k lo hi) (hle : lo ≤ hi) (hhi : hi ≤ n) {T : Nat} (hT : 0 < T) :
    calcBatch T E D levels order set L k = .ok (putAll H L (nodesBetween order lo hi)) := by
  have hranges := threadRanges_flatMap hT hle
  unfold LabelCreator.calcBatch shareBatch
  rw [OrderedIntSet.get_spec hset hb.lo, ok_bind,
    show ((k : Int) + 1) = ((k + 1 : Nat) : Int) by push_cast; rfl,
    OrderedIntSet.get_spec hset hb.hi, ok_bind,
    h.run_ranges hsized (fun i => idAt order i.toNat), hranges]
  · rfl
  · intro range hrange i hi'
    have hi'' : i ∈ indices lo hi := by
      rw [← hranges]
      exact List.mem_flatMap.mpr ⟨range, hrange, hi'⟩
    obtain ⟨h0, h1⟩ := mem_indices.mp hi''
    obtain ⟨p, rfl⟩ : ∃ p : Nat, i = p := ⟨i.toNat, by omega⟩
    exact ⟨(hn.rd_level (by omega)).1, mem_nodesBetween.mpr ⟨p, by omega, by omega, by simp⟩⟩

/-- One iteration of `calcLabels()`; the threads may take turns in any way. -/
theorem batch_spec {set : OrderedIntSet} {cs : List Int} {k lo hi : Nat}
    (hU : HLDijkstra.Upward n E D levels)
    (hwalk : ∀ x, ∀ e ∈ HLDijkstra.ups E D levels x, Walk G x (E.destOf e) (E.distOf e))
    (hn : Nodes n levels order) (hs : SortedFrom levels order 0) (hc : Changes levels order n cs)
    (hset : OrderedIntSet.Holds set (cs ++ [(n : Int)])) (hb : Batch n cs k lo hi) (hle : lo ≤ hi)
    (hhi : hi ≤ n) (h : Done G n E D levels order lo L) :
    ∃ L', Done G n E D levels order hi L' ∧
      (∀ T, 0 < T → calcBatch T E D levels order set L k = .ok L') ∧
      ∀ schedule, (schedule.map Prod.snd).Perm ((order.take hi).drop lo) →
        runSchedule E D levels L schedule = .ok L' := by
  have hlen := hn.length
  obtain ⟨H, hH⟩ := exists_computes hU h.labelled hwalk (nodesBetween_ready hU hn hs hc hb hhi)
  refine ⟨_, h.putAll hle (by omega) hH,
    fun T hT => hH.calcBatch h.sized hn hset hb hle hhi hT, ?_⟩
  intro schedule hperm
  rw [take_drop_eq hlen hle hhi] at hperm
  rw [hH.runSchedule h.sized schedule, putAll_perm (fun u hu => ?_) hperm]
  · rfl
  · exact ((hH.node u (hperm.mem_iff.mp hu)).1).1
  · intro call hcall
    exact hperm.mem_iff.mp (List.mem_map_of_mem hcall)

/-- The iterations of `calcLabels()` down to the change index `k`. -/
theorem batches_spec {set : OrderedIntSet} {cs : List Int} (hU : HLDijkstra.Upward n E D levels)
    (hwalk : ∀ x, ∀ e ∈ HLDijkstra.ups E D levels x, Walk G x (E.destOf e) (E.distOf e))
    (hn : Nodes n levels order) (hs : SortedFrom levels order 0) (hc : Changes levels order n cs)
    (hset : OrderedIntSet.Holds set (cs ++ [(n : Int)])) (k : Nat) (hk : k ≤ cs.length) :
    ∃ (m : Nat) (L : Labels), (cs ++ [(n : Int)])[k]? = some (m : Int) ∧ m ≤ n ∧
      Done G n E D levels order m L ∧
      (∀ T, 0 < T → (indices 0 k).foldlM (calcBatch T E D levels order set) (Labels.new n)
        = .ok L) ∧
      ∀ schedules : List (List (Nat × Int)), schedules.length = k →
        (∀ (j : Nat) (schedule : List (Nat × Int)), schedules[j]? = some schedule →
          ∃ lo hi : Nat, set.get j = .ok (lo : Int) ∧ set.get (j + 1) = .ok (hi : Int) ∧
            (schedule.map Prod.snd).Perm ((order.take hi).drop lo)) →
        schedules.foldlM (runSchedule E D levels) (Labels.new n) = .ok L := by
  induction k with
  | zero =>
    have hpos := hc.length_pos
    refine ⟨0, Labels.new n, ?_, Nat.zero_le n, done_new G n E D levels order, ?_, ?_⟩
    · rw [List.getElem?_append_left hpos, ← List.head?_eq_getElem?, hc.head]
      rfl
    · intro T _
      rfl
    · intro schedules hlen _
      rw [List.length_eq_zero_iff.mp hlen]
      rfl
  | succ k ih =>
    obtain ⟨m, L, hm, hmn, hdone, hseq, hsched⟩ := ih (by omega)
    obtain ⟨lo, hi, hb, hle, hhi⟩ := hc.batch (k := k) (by omega)
    obtain rfl : m = lo := by
      have := hb.lo
      rw [hm, Option.some.injEq] at this
      omega
    obtain ⟨L', hdone', hstep, hturn⟩ := batch_spec hU hwalk hn hs hc hset hb hle hhi hdone
    refine ⟨hi, L', hb.hi, hhi, hdone', ?_, ?_⟩
    · intro T hT
      have hcast : (((k + 1 : Nat)) : Int) = 0 + ((k + 1 : Nat) : Int) := by omega
      have hseq' := hseq T hT
      rw [show ((k : Int)) = 0 + (k : Int) by omega] at hseq'
      rw [hcast, indices_succ, List.foldlM_append, hseq', ok_bind, List.foldlM_cons,
        show (0 : Int) + (k : Int) = (k : Int) by omega, hstep T hT, ok_bind]
      rfl
    · intro schedules hlen hvalid
      rcases List.eq_nil_or_concat' schedules with rfl | ⟨init, last, rfl⟩
      · simp at hlen
      · have hinit : init.length = k := by simpa using hlen
        rw [List.foldlM_append, hsched init hinit, ok_bind, List.foldlM_cons]
        · obtain ⟨lo', hi', hlo', hhi', hperm⟩ := hvalid k last (by
            rw [List.getElem?_append_right (by omega), hinit, Nat.sub_self]
            rfl)
          have h1 := OrderedIntSet.get_spec hset hb.lo
          have h2 := OrderedIntSet.get_spec hset hb.hi
          rw [h1, Except.ok.injEq] at hlo'
          rw [show ((k : Int) + 1) = ((k + 1 : Nat) : Int) by push_cast; rfl, h2,
            Except.ok.injEq] at hhi'
          obtain rfl : lo' = m := by omega
          obtain rfl : hi' = hi := by omega
          rw [hturn last hperm, ok_bind]
          rfl
        · intro j schedule hj
          apply hvalid j schedule
          rw [List.getElem?_append_left (List.getElem?_eq_some_iff.mp hj).1]
          exact hj

end batches

end LabelCreator

end SeaRouter
