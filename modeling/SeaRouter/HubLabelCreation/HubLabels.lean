import SeaRouter.HubLabelCreation.CalcLabels

/-!
# The hub labels of a contraction hierarchy

The hierarchy that `calculateCH` leaves is a ranked graph (`Finished.ranked`),
with the level of a node as its rank and the edges to higher levels as those
that begin shortest ways.  `calcLabels_done` is the label calculation on it, for
any number of levels that get no labels: the nodes that have labels then are
those of the other levels.

When the first edge that a node lists to a neighbour is always a shortest one,
the labels are the hubs of the ranked graph, and so they are exact, cover all
shortest ways and lead along them (`calcLabels_exact`).  Without this condition
it is still true that the threads may take turns in any way
(`calcLabels_schedule`).
-/

namespace SeaRouter

open Java WGraph BinHeap

namespace LabelCreator

variable {I : InputGraph} {n : Nat} {calcOrder : List Int} {s : LabelCreator}

/-- The hierarchy at the end of `calculateCH`, with the levels `0` to `top - 1`. -/
structure Finished (I : InputGraph) (n : Nat) (s : LabelCreator) (top : Int) : Prop where
  undirected : I.Undirected n
  positive : I.Positive
  hierarchy : ∃ K, Hierarchy I n s K top
  gone : ∀ u, u ∉ uncontracted s
  used : ∀ k, 0 ≤ k → k < top → ∃ u : Int, (0 ≤ u ∧ u < n) ∧ levelOf s u = k

theorem calculateCH_finished (hI : I.Undirected n) (hpos : I.Positive)
    (horder : ∀ u : Int, u ∈ calcOrder ↔ 0 ≤ u ∧ u < n) :
    ∃ s top, calculateCH I.edges I.grid n calcOrder = .ok s ∧ Finished I n s top := by
  obtain ⟨s, top, hrun, hr, hempty⟩ := calculateCH_of_consistent (fun _ _ => True)
    (fun s lvl hr => by
      obtain ⟨K, hh⟩ := hr.hierarchy hI hpos horder
      exact ⟨K, hh.consistent⟩) (fun _ _ _ _ => trivial)
  refine ⟨s, top, hrun, hI, hpos, hr.hierarchy hI hpos horder, ?_, ?_⟩
  · intro u
    rw [hempty]
    exact Finset.notMem_empty u
  · intro k h0 hk
    obtain ⟨u, hu, _, hlevel⟩ := hr.exists_level hI hpos horder k h0 hk
    exact ⟨u, hu, hlevel⟩

namespace Finished

variable {top : Int}

/-- The edges of the hierarchy upwards. -/
def Up (s : LabelCreator) (u x l : Int) : Prop :=
  ∃ e ∈ s.grid.all u, s.edges.destOf e = x ∧ s.edges.distOf e = l ∧ levelOf s u < levelOf s x

theorem level_bounds (h : Finished I n s top) {u : Int} (h0 : 0 ≤ u) (h1 : u < n) :
    0 ≤ levelOf s u ∧ levelOf s u < top := by
  obtain ⟨K, hh⟩ := h.hierarchy
  exact hh.level u h0 h1 (h.gone u)

theorem upward (h : Finished I n s top) : HLDijkstra.Upward n s.edges s.grid s.levels := by
  obtain ⟨K, hh⟩ := h.hierarchy
  have hc := hh.consistent
  refine ⟨hc.small, hc.levelsLength, hc.all, ?_, ?_⟩
  · intro u e he
    obtain ⟨_, hid, _, hd⟩ := hh.edge_all h.undirected he
    have hedge := hc.valid.isEdge hid
    exact ⟨hedge.dest, hedge.dist, hd⟩
  · intro u e he
    rcases hh.separate u (h.gone u) e he with hsep | hsep
    · exact Ne.symm (ne_of_lt (hsep.2.resolve_left (h.gone _)))
    · exact ne_of_lt (hsep.2.resolve_left (h.gone _))

/-- An edge of the hierarchy has the length of a way. -/
theorem walk_all (h : Finished I n s top) {u e : Int} (he : e ∈ s.grid.all u) :
    Walk I.Adj u (s.edges.destOf e) (s.edges.distOf e) := by
  obtain ⟨K, hh⟩ := h.hierarchy
  obtain ⟨rest, hall, hrest⟩ := hh.all u
  rw [hall, List.mem_append] at he
  rcases he with he | he
  · obtain ⟨h0, h1, _⟩ := (h.undirected.rows_iff u e).mp he
    have hid := h.undirected.isId_iff.mpr ⟨h0, h1⟩
    rw [hh.extends_.destOf_eq h.undirected.valid hid, hh.extends_.distOf_eq h.undirected.valid hid]
    exact Walk.single ⟨e, he, rfl, rfl⟩
  · exact (hrest e he).2.2.2.2.1

theorem walk_ups (h : Finished I n s top) (u : Int) :
    ∀ e ∈ HLDijkstra.ups s.edges s.grid s.levels u,
      Walk I.Adj u (s.edges.destOf e) (s.edges.distOf e) :=
  fun _ he => h.walk_all ((HLDijkstra.mem_ups h.upward).mp he).1

theorem adj_pos (h : Finished I n s top) (u v l : Int) (hadj : I.Adj u v l) : 0 < l := by
  obtain ⟨e, he, _, rfl⟩ := hadj
  obtain ⟨h0, h1, _⟩ := (h.undirected.rows_iff u e).mp he
  exact h.positive _ (h.undirected.distOf_mem h0 h1)

theorem adj_symm (h : Finished I n s top) (u v l : Int) (hadj : I.Adj u v l) : I.Adj v u l := by
  obtain ⟨e, he, hdest, hdist⟩ := hadj
  have hcount := h.undirected.symm u v l
  have hpos : 0 < countTo I.edges (I.grid.current u) v l :=
    List.countP_pos_iff.mpr ⟨e, he, by simp [hdest, hdist]⟩
  rw [hcount] at hpos
  obtain ⟨e', he', hp⟩ := List.countP_pos_iff.mp hpos
  simp only [decide_eq_true_eq] at hp
  exact ⟨e', he', hp.1, hp.2⟩

theorem adj_node (h : Finished I n s top) {u v l : Int} (hadj : I.Adj u v l) :
    (0 ≤ u ∧ u < n) ∧ 0 ≤ v ∧ v < n := by
  obtain ⟨e, he, rfl, _⟩ := hadj
  obtain ⟨h0, h1, _⟩ := (h.undirected.rows_iff u e).mp he
  have hd := h.undirected.node e h0 h1
  refine ⟨?_, hd.1, hd.2.1⟩
  by_contra hu
  have hnil : I.grid.current u = [] := h.undirected.lists.listOf_outside hu
  rw [hnil] at he
  simp at he

/-- The ends of a way with an edge are nodes. -/
theorem walk_node (h : Finished I n s top) {u v l : Int} (hw : Walk I.Adj u v l) (hne : v ≠ u) :
    (0 ≤ u ∧ u < n) ∧ 0 ≤ v ∧ v < n := by
  have hfirst : ∀ {u v l : Int}, Walk I.Adj u v l → v ≠ u → 0 ≤ u ∧ u < n := by
    intro u v l hw hne
    cases hw with
    | nil => exact absurd rfl hne
    | cons hadj _ => exact (h.adj_node hadj).1
  exact ⟨hfirst hw hne, hfirst (hw.reverse h.adj_symm) (Ne.symm hne)⟩

theorem ranked (h : Finished I n s top) : Ranked I.Adj (Up s) (HLDijkstra.level s.levels) := by
  obtain ⟨K, hh⟩ := h.hierarchy
  refine ⟨h.adj_pos, h.adj_symm, ⟨max top 0, ?_⟩, ?_, ?_, ?_⟩
  · intro u
    by_cases hu : 0 ≤ u ∧ u < n
    · have hb : levelOf s u < top := (h.level_bounds hu.1 hu.2).2
      show levelOf s u ≤ max top 0
      omega
    · have herr : HLDijkstra.level s.levels u = 0 := by
        rw [HLDijkstra.level]
        cases hrd : rd s.levels u with
        | error e => rfl
        | ok x =>
          have := rd_bounds hrd
          rw [hh.consistent.levelsLength] at this
          exact absurd this hu
      rw [herr]
      exact le_max_right top 0
  · intro u x l hU
    obtain ⟨e, he, rfl, rfl, _⟩ := hU
    exact h.walk_all he
  · intro u x l hU
    obtain ⟨_, _, _, _, hlt⟩ := hU
    exact hlt
  · intro u w d hd hne hle
    obtain ⟨hu, hw⟩ := h.walk_node hd.1 hne
    have hnot : ¬ Earlier s w u := by
      intro hearly
      have hlt : levelOf s w < levelOf s u := hearly.2.resolve_left (h.gone u)
      have hle' : levelOf s u ≤ levelOf s w := hle
      omega
    obtain ⟨e, he, hearly, d', hd', hsum⟩ :=
      hh.hop u w hu.1 hu.2 hw.1 hw.2 (h.gone u) hne hnot d hd
    exact ⟨_, _, d', ⟨e, he, rfl, rfl, hearly.2.resolve_left (h.gone _)⟩, hd', hsum⟩

/-- The labels that `calcLabels` calculates: those of the nodes whose level is at
least `K`, whatever the number of threads is and however they take turns.  `G` is any
graph in which the edges upwards are walks. -/
theorem calcLabels_done_of (h : Finished I n s top) {G : Int → Int → Int → Prop}
    (hwalk : ∀ x, ∀ e ∈ HLDijkstra.ups s.edges s.grid s.levels x,
      Walk G x (s.edges.destOf e) (s.edges.distOf e)) (K : Nat) :
    ∃ order m L, (∀ x, Before order m x ↔ (0 ≤ x ∧ x < n) ∧ (K : Int) ≤ levelOf s x) ∧
      Done G n s.edges s.grid s.levels order m L ∧
      (∀ T, 0 < T → calcLabels T K s.edges s.grid s.levels n (Labels.new n) = .ok L) ∧
      ∃ set, createHLCalcOrder s.levels n = .ok (order, set) ∧
        ∀ schedules, IsSchedule order set K schedules →
          schedules.foldlM (runSchedule s.edges s.grid s.levels) (Labels.new n) = .ok L := by
  obtain ⟨Kp, hh⟩ := h.hierarchy
  have hllen := hh.consistent.levelsLength
  have hnn : ∀ l ∈ s.levels, 0 ≤ l := by
    intro l hl
    obtain ⟨u, h0, h1, hrd⟩ := exists_rd_of_mem hl
    rw [hllen] at h1
    have hb := (h.level_bounds h0 h1).1
    rw [levelOf, hrd] at hb
    exact hb
  obtain ⟨order, set, cs, hcreate, hn, hs, hc, hset⟩ := createHLCalcOrder_spec hllen hnn
  have hlen := hn.length
  have hsize : set.size = (cs.length : Int) + 1 := by
    rw [OrderedIntSet.size_eq hset, List.length_append, List.length_singleton]
    push_cast
    rfl
  obtain ⟨m, L, hm, hmn, hdone, hseq, hsched⟩ := batches_spec h.upward hwalk hn hs hc hset
    (cs.length - K) (by omega)
  have hpos : ∀ x : Int, 0 ≤ x → x < n → ∃ p, p < n ∧ idAt order p = x := by
    intro x h0 h1
    obtain ⟨p, hp, heq⟩ := exists_idAt_of_mem (hn.perm.mem_iff.mpr (mem_indices.mpr ⟨h0, h1⟩))
    exact ⟨p, by omega, heq⟩
  have hrange : ∀ p, p < n → 0 ≤ levelAt s.levels order p ∧ levelAt s.levels order p < top := by
    intro p hp
    obtain ⟨h0, h1⟩ := hn.node (idAt_mem (i := p) (by omega))
    exact h.level_bounds h0 h1
  have hused : ∀ l, 0 ≤ l → l < top → ∃ p, p < n ∧ levelAt s.levels order p = l := by
    intro l h0 h1
    obtain ⟨u, hu, hlevel⟩ := h.used l h0 h1
    obtain ⟨p, hp, heq⟩ := hpos u hu.1 hu.2
    exact ⟨p, hp, by rw [levelAt, heq]; exact hlevel⟩
  have hcut := hc.lt_cut_iff hs hlen hrange hused hm
  refine ⟨order, m, L, ?_, hdone, ?_, set, hcreate, ?_⟩
  · intro x
    constructor
    · intro hx
      obtain ⟨p, hp, hpl, rfl⟩ := hx
      exact ⟨hn.node (idAt_mem hpl), (hcut p (by omega)).mp hp⟩
    · intro hx
      obtain ⟨p, hp, rfl⟩ := hpos x hx.1.1 hx.1.2
      exact ⟨p, (hcut p hp).mpr hx.2, by omega, rfl⟩
  · intro T hT
    unfold calcLabels shareNodes
    rw [hcreate, ok_bind]
    have hidx : indices 0 (set.size - ((K : Int) + 1)) = indices 0 ((cs.length - K : Nat) : Int) := by
      rw [hsize, indices, indices]
      congr 2
      omega
    simp only [hidx]
    exact hseq T hT
  · intro schedules hvalid
    apply hsched schedules _ hvalid.2
    have := hvalid.1
    rw [hsize] at this
    omega

theorem calcLabels_done (h : Finished I n s top) (K : Nat) :
    ∃ order m L, (∀ x, Before order m x ↔ (0 ≤ x ∧ x < n) ∧ (K : Int) ≤ levelOf s x) ∧
      Done I.Adj n s.edges s.grid s.levels order m L ∧
      (∀ T, 0 < T → calcLabels T K s.edges s.grid s.levels n (Labels.new n) = .ok L) ∧
      ∃ set, createHLCalcOrder s.levels n = .ok (order, set) ∧
        ∀ schedules, IsSchedule order set K schedules →
          schedules.foldlM (runSchedule s.edges s.grid s.levels) (Labels.new n) = .ok L :=
  h.calcLabels_done_of h.walk_ups K

end Finished

/-- The threads of a level may take turns in any way: the labels are the same,
and no label of a node that has none yet is read, since that would throw. -/
theorem calcLabels_schedule (hI : I.Undirected n) (hpos : I.Positive)
    (horder : ∀ u : Int, u ∈ calcOrder ↔ 0 ≤ u ∧ u < n) (T K : Nat) (hT : 0 < T) :
    ∃ s L order set, calculateCH I.edges I.grid n calcOrder = .ok s ∧
      calcLabels T K s.edges s.grid s.levels n (Labels.new n) = .ok L ∧
      createHLCalcOrder s.levels n = .ok (order, set) ∧
      ∀ schedules, IsSchedule order set K schedules →
        schedules.foldlM (runSchedule s.edges s.grid s.levels) (Labels.new n) = .ok L := by
  obtain ⟨s, top, hrun, hf⟩ := calculateCH_finished hI hpos horder
  obtain ⟨order, m, L, _, _, hseq, set, hcreate, hsched⟩ := hf.calcLabels_done K
  exact ⟨s, L, order, set, hrun, hseq T hT, hcreate, hsched⟩

theorem calcLabels_schedule_detour :
    0 < NUM_OF_THREADS ∧
    ∃ s L order set, calculateCH detour.edges detour.grid 3 [1, 0, 2] = .ok s ∧
      calcLabels NUM_OF_THREADS 0 s.edges s.grid s.levels 3 (Labels.new 3) = .ok L ∧
      createHLCalcOrder s.levels 3 = .ok (order, set) ∧
      ∀ schedules, IsSchedule order set 0 schedules →
        schedules.foldlM (runSchedule s.edges s.grid s.levels) (Labels.new 3) = .ok L :=
  ⟨by decide, calcLabels_schedule detour_checked.undirected detour_positive mem_detourOrder
    NUM_OF_THREADS 0 (by decide)⟩

/-! ## Exact labels -/

/-- The first edge that a node lists to a neighbour is a shortest one to it. -/
def FirstShortest (s : LabelCreator) : Prop :=
  ∀ u, ∀ e ∈ s.grid.all u, ∀ e',
    HLDijkstra.firstTo s.edges (s.grid.all u) (s.edges.destOf e) = some e' →
      s.edges.distOf e' ≤ s.edges.distOf e

/-- `h` is a label of `v`, with the distance `d` and the edge `e`. -/
def HasLabel (L : Labels) (v h d e : Int) : Prop :=
  ∃ hs es ds, HLDijkstra.Row L v hs es ds ∧
    ∃ i : Nat, hs[i]? = some h ∧ ds[i]? = some d ∧ es[i]? = some e

theorem hasLabel_iff {L : Labels} {v h d e : Int} {hs es ds : List Int}
    (hrow : HLDijkstra.Row L v hs es ds) (hrows : HLDijkstra.Rows hs ds es) :
    HasLabel L v h d e ↔ assoc hs ds h = some d ∧ assoc hs es h = some e := by
  have hnd := nodup_of_sorted hrows.sorted
  constructor
  · intro hex
    obtain ⟨hs', es', ds', hrow', i, hi, hd, he⟩ := hex
    obtain ⟨rfl, rfl, rfl⟩ := hrow.unique hrow'
    rw [assoc_of_getElem? hnd hi, assoc_of_getElem? hnd hi]
    exact ⟨hd, he⟩
  · intro hex
    obtain ⟨hd, he⟩ := hex
    obtain ⟨i, hi⟩ := List.mem_iff_getElem?.mp (mem_of_assoc hd)
    rw [assoc_of_getElem? hnd hi] at hd he
    exact ⟨hs, es, ds, hrow, i, hi, hd, he⟩

/-- The edges to one node are kept or left out together. -/
theorem firstTo_notDown {E : Edges} {levels : List Int} {u x : Int}
    (hup : HLDijkstra.level levels u < HLDijkstra.level levels x) (l : List Int) :
    HLDijkstra.firstTo E (HLDijkstra.notDown E levels u l) x = HLDijkstra.firstTo E l x := by
  unfold HLDijkstra.firstTo HLDijkstra.notDown
  rw [List.find?_filter]
  congr 1
  funext e
  by_cases hx : E.destOf e = x
  · simp [hx, le_of_lt hup]
  · simp [hx]

theorem Finished.launches {top : Int} (h : Finished I n s top) (hfirst : FirstShortest s) (u : Int) :
    HLDijkstra.Launches I.Adj s.edges s.grid s.levels u := by
  intro g hgu hhub
  obtain ⟨d, hd⟩ := hhub.joined
  have hlt := hhub.rank_lt h.ranked.nonneg (Ne.symm hgu)
  obtain ⟨x, l, b, hUp, hb, hsum⟩ := h.ranked.hop u g d hd hgu (le_of_lt hlt)
  obtain ⟨e, he, rfl, rfl, hup⟩ := hUp
  obtain ⟨e', he'⟩ := HLDijkstra.exists_firstTo (E := s.edges) he
  have hle := hfirst u e he e' he'
  have hall := (HLDijkstra.firstTo_some he').1
  have hdest := (HLDijkstra.firstTo_some he').2
  have hw := (h.walk_all hall)
  rw [hdest] at hw
  have hge := hd.2 _ (hw.append hb.1)
  refine ⟨_, e', b, ?_, hb, ?_⟩
  · rw [HLDijkstra.ups, firstTo_notDown hup]
    exact he'
  · rw [show s.edges.distOf e' + b = d by omega]
    exact hd

/-- The label of a hub leads to a node on a shortest way to it. -/
theorem Done.nextHop {top : Int} (h : Finished I n s top) {order : List Int} {m : Nat} {L : Labels}
    (hd : Done I.Adj n s.edges s.grid s.levels order m L)
    (hcan : ∀ x hs es ds, Before order m x → HLDijkstra.Row L x hs es ds →
      HLDijkstra.Canonical I.Adj (HLDijkstra.level s.levels) x hs ds) {v g d e : Int}
    (hv : Before order m v) (hlabel : HasLabel L v g d e) (hne : g ≠ v)
    (hup : ∀ e ∈ HLDijkstra.ups s.edges s.grid s.levels v, Before order m (s.edges.destOf e)) :
    e ∈ s.grid.all v ∧ levelOf s v < levelOf s (s.edges.destOf e) ∧
      ∃ d' e', HasLabel L (s.edges.destOf e) g d' e' ∧ s.edges.distOf e + d' = d := by
  obtain ⟨_, hs, es, ds, hrow, hfair⟩ := hd.labelled v hv
  obtain ⟨hdist, hedge⟩ := (hasLabel_iff hrow hfair.rows).mp hlabel
  obtain ⟨hhub, hvg⟩ := (hcan v hs es ds hv hrow g d).mp hdist
  obtain ⟨e', m', he', hfirst, hw, rfl, _⟩ := hfair.reach g d hdist hne
  rw [hedge, Option.some.injEq] at he'
  subst he'
  have hmem := (HLDijkstra.firstTo_some hfirst).1
  obtain ⟨hall, hlt⟩ := (HLDijkstra.mem_ups h.upward).mp hmem
  have hon := OnShortest.of_walk (h.walk_all hall) hw hvg
  have hxg : IsDist I.Adj (s.edges.destOf e) g m' := (hvg.split (h.walk_all hall) hw).2
  obtain ⟨_, hs', es', ds', hrow', hfair'⟩ := hd.labelled _ (hup e hmem)
  have hlabel' := (hcan _ hs' es' ds' (hup e hmem) hrow' g m').mpr ⟨hhub.of_onShortest hon, hxg⟩
  obtain ⟨e'', he''⟩ := exists_assoc_of_mem hfair'.rows.edgeLength (mem_of_assoc hlabel')
  exact ⟨hall, hlt, m', e'', (hasLabel_iff hrow' hfair'.rows).mpr ⟨hlabel', he''⟩, rfl⟩

/-- All nodes get labels when no level is left out.  They are exact, cover the
shortest ways, and their edges lead along them. -/
theorem calcLabels_exact (hI : I.Undirected n) (hpos : I.Positive)
    (horder : ∀ u : Int, u ∈ calcOrder ↔ 0 ≤ u ∧ u < n)
    (hfirst : ∀ s, calculateCH I.edges I.grid n calcOrder = .ok s → FirstShortest s) :
    ∃ s L, calculateCH I.edges I.grid n calcOrder = .ok s ∧
      calcLabels NUM_OF_THREADS 0 s.edges s.grid s.levels n (Labels.new n) = .ok L ∧
      (∀ v h d e : Int, 0 ≤ v → v < n → HasLabel L v h d e → IsDist I.Adj v h d) ∧
      (∀ v w : Int, 0 ≤ v → v < n → 0 ≤ w → w < n → ∀ d, IsDist I.Adj v w d →
        ∃ h a b e e', HasLabel L v h a e ∧ HasLabel L w h b e' ∧ a + b = d) ∧
      (∀ v h d e : Int, 0 ≤ v → v < n → HasLabel L v h d e → h ≠ v →
        e ∈ s.grid.all v ∧ levelOf s v < levelOf s (s.edges.destOf e) ∧
        ∃ d' e', HasLabel L (s.edges.destOf e) h d' e' ∧ s.edges.distOf e + d' = d) := by
  obtain ⟨s, top, hrun, hf⟩ := calculateCH_finished hI hpos horder
  obtain ⟨order, m, L, hbefore, hdone, hseq, _⟩ := hf.calcLabels_done 0
  have hall : ∀ v : Int, 0 ≤ v → v < n → Before order m v := by
    intro v h0 h1
    exact (hbefore v).mpr ⟨⟨h0, h1⟩, (hf.level_bounds h0 h1).1⟩
  have hcan := hdone.canonical _ hf.ranked fun u _ => hf.launches (hfirst s hrun) u
  refine ⟨s, L, hrun, hseq NUM_OF_THREADS (by decide), ?_, ?_, ?_⟩
  · intro v g d e h0 h1 hlabel
    obtain ⟨_, hs, es, ds, hrow, hfair⟩ := hdone.labelled v (hall v h0 h1)
    have hd := ((hasLabel_iff hrow hfair.rows).mp hlabel).1
    exact ((hcan v hs es ds (hall v h0 h1) hrow g d).mp hd).2
  · intro v w hv0 hv1 hw0 hw1 d hd
    obtain ⟨g, hon, hvg, hwg, _⟩ := hf.ranked.exists_hub hd
    obtain ⟨a, ha⟩ := hvg.joined
    obtain ⟨b, hb⟩ := hwg.joined
    have hlabel : ∀ v : Int, 0 ≤ v → v < n → ∀ a, IsHub I.Adj (HLDijkstra.level s.levels) v g →
        IsDist I.Adj v g a → ∃ e, HasLabel L v g a e := by
      intro v h0 h1 a hhub ha
      obtain ⟨_, hs, es, ds, hrow, hfair⟩ := hdone.labelled v (hall v h0 h1)
      have hd := (hcan v hs es ds (hall v h0 h1) hrow g a).mpr ⟨hhub, ha⟩
      obtain ⟨e, he⟩ := exists_assoc_of_mem hfair.rows.edgeLength (mem_of_assoc hd)
      exact ⟨e, (hasLabel_iff hrow hfair.rows).mpr ⟨hd, he⟩⟩
    obtain ⟨e, he⟩ := hlabel v hv0 hv1 a hvg ha
    obtain ⟨e', he'⟩ := hlabel w hw0 hw1 b hwg hb
    exact ⟨g, a, b, e, e', he, he', hon.add ha (hb.symm hf.adj_symm) hd⟩
  · intro v g d e h0 h1 hlabel hne
    apply hdone.nextHop hf hcan (hall v h0 h1) hlabel hne
    intro e he
    have hd := (hf.upward.edge v e ((HLDijkstra.mem_ups hf.upward).mp he).1).2.2
    exact hall _ hd.1 hd.2

/-- Three nodes in a row. -/
def row : InputGraph := InputGraph.ofEdges 3 [(0, 1, 1), (1, 2, 1)]

theorem row_checked : row.Checked 3 := by decide +kernel

theorem row_positive : row.Positive := by decide +kernel

/-- The condition `FirstShortest` of the nodes `0` to `n - 1`. -/
def firstShortestBelow (n : Nat) (s : LabelCreator) : Bool :=
  (List.range n).all fun u => (s.grid.all u).all fun e =>
    (HLDijkstra.firstTo s.edges (s.grid.all u) (s.edges.destOf e)).all fun e' =>
      decide (s.edges.distOf e' ≤ s.edges.distOf e)

theorem row_firstShortest (s : LabelCreator)
    (hrun : calculateCH row.edges row.grid 3 [1, 0, 2] = .ok s) : FirstShortest s := by
  obtain ⟨s', hrun', hcheck⟩ := exists_of_map_toOption (p := firstShortestBelow 3)
    (show (calculateCH row.edges row.grid 3 [1, 0, 2]).toOption.map (firstShortestBelow 3)
      = some true by decide +kernel)
  rw [hrun, Except.ok.injEq] at hrun'
  subst hrun'
  obtain ⟨s₁, top, hrun₁, hf⟩ := calculateCH_finished row_checked.undirected row_positive
    mem_detourOrder
  rw [hrun, Except.ok.injEq] at hrun₁
  subst hrun₁
  intro u e he e' he'
  obtain ⟨K, hh⟩ := hf.hierarchy
  obtain ⟨⟨h0, h1⟩, _⟩ := hh.edge_all hf.undirected he
  obtain ⟨k, rfl⟩ : ∃ k : Nat, u = k := ⟨u.toNat, by omega⟩
  simp only [firstShortestBelow, List.all_eq_true, List.mem_range] at hcheck
  have := hcheck k (by omega) e he
  rw [he'] at this
  simpa using this

theorem calcLabels_exact_row :
    ∃ s L, calculateCH row.edges row.grid 3 [1, 0, 2] = .ok s ∧
      calcLabels NUM_OF_THREADS 0 s.edges s.grid s.levels 3 (Labels.new 3) = .ok L ∧
      (∀ v h d e : Int, 0 ≤ v → v < (3 : Nat) → HasLabel L v h d e → IsDist row.Adj v h d) ∧
      (∀ v w : Int, 0 ≤ v → v < (3 : Nat) → 0 ≤ w → w < (3 : Nat) → ∀ d, IsDist row.Adj v w d →
        ∃ h a b e e', HasLabel L v h a e ∧ HasLabel L w h b e' ∧ a + b = d) ∧
      (∀ v h d e : Int, 0 ≤ v → v < (3 : Nat) → HasLabel L v h d e → h ≠ v →
        e ∈ s.grid.all v ∧ levelOf s v < levelOf s (s.edges.destOf e) ∧
        ∃ d' e', HasLabel L (s.edges.destOf e) h d' e' ∧ s.edges.distOf e + d' = d) :=
  calcLabels_exact row_checked.undirected row_positive mem_detourOrder row_firstShortest

end LabelCreator

end SeaRouter
