import SeaRouter.HubLabelCreation.HLDijkstra

/-!
# The labels that `HLDijkstra` finds for one node

`Upward` is what the calculation needs of the hierarchy, and `Fair` is what its
labels keep whatever the edges are: each label of a node is the length of a
walk that begins with an edge upwards, the first one listed to its end.

`Launches` asks that each hub of the node has such an edge at the beginning of
a shortest way to it.  Then the labels of the node are exactly its hubs, with
the exact distances (`calcLabels_canonical`): a hub survives the removal, since
a label that makes it redundant would have a higher rank and be on a shortest
way to it, and any other label is made redundant by a hub on the way.
-/

namespace SeaRouter

open Java WGraph

namespace HLDijkstra

/-- The level of a node. -/
def level (levels : List Int) (u : Int) : Int := Edges.valueOf (rd levels u)

/-- The hierarchy as the label calculation reads it. -/
structure Upward (n : Nat) (E : Edges) (D : DynamicGrid) (levels : List Int) : Prop where
  small : (n : Int) ≤ MAX_VALUE
  levelsLength : levels.length = n
  all : DynamicGrid.Lists n (fun _ => True) D.allEdgeIds D.allEdgeCount D.all
  edge : ∀ u, ∀ e ∈ D.all u, E.getDest e = .ok (E.destOf e) ∧ E.getDist e = .ok (E.distOf e) ∧
    (0 ≤ E.destOf e ∧ E.destOf e < n)
  separate : ∀ u, ∀ e ∈ D.all u, level levels (E.destOf e) ≠ level levels u

/-- The edges of a list that do not lead to a lower level than `u` has. -/
def notDown (E : Edges) (levels : List Int) (u : Int) (l : List Int) : List Int :=
  l.filter fun e => ¬ level levels (E.destOf e) < level levels u

/-- The edges of a node that do not lead to a lower level. -/
def ups (E : Edges) (D : DynamicGrid) (levels : List Int) (u : Int) : List Int :=
  notDown E levels u (D.all u)

/-- The first edge of a list that leads to `v`. -/
def firstTo (E : Edges) (l : List Int) (v : Int) : Option Int := l.find? fun e => E.destOf e = v

theorem firstTo_some {E : Edges} {l : List Int} {v e : Int} (h : firstTo E l v = some e) :
    e ∈ l ∧ E.destOf e = v :=
  ⟨List.mem_of_find?_eq_some h, by simpa using List.find?_some h⟩

theorem exists_firstTo {E : Edges} {l : List Int} {e : Int} (h : e ∈ l) :
    ∃ e', firstTo E l (E.destOf e) = some e' := by
  rw [← Option.isSome_iff_exists, firstTo, List.find?_isSome]
  exact ⟨e, h, by simp⟩

theorem firstTo_snoc (E : Edges) (l : List Int) (e v : Int) :
    firstTo E (l ++ [e]) v = (firstTo E l v).or (if E.destOf e = v then some e else none) := by
  rw [firstTo, List.find?_append, ← firstTo]
  congr 1
  simp only [List.find?_singleton, decide_eq_true_eq]

variable {n : Nat} {E : Edges} {D : DynamicGrid} {levels : List Int}

theorem Upward.rd_level (h : Upward n E D levels) {u : Int} (h0 : 0 ≤ u) (h1 : u < n) :
    rd levels u = .ok (level levels u) := by
  obtain ⟨x, hx⟩ := exists_rd (a := levels) h0 (by rw [h.levelsLength]; exact h1)
  rw [level, hx]
  rfl

theorem mem_ups (h : Upward n E D levels) {u e : Int} :
    e ∈ ups E D levels u ↔ e ∈ D.all u ∧ level levels u < level levels (E.destOf e) := by
  rw [ups, notDown, List.mem_filter, decide_eq_true_eq]
  constructor
  · rintro ⟨he, hle⟩
    have := h.separate u e he
    exact ⟨he, by omega⟩
  · rintro ⟨he, hlt⟩
    exact ⟨he, by omega⟩

/-! ## The edges of the node -/

variable {t : HLDijkstra} {xs ds es : List Int} {u : Int}

/-- The rows after the edges `pre`, and the neighbours found. -/
structure Neighbours (E : Edges) (levels : List Int) (u : Int) (pre nbrs xs ds es : List Int) :
    Prop where
  rows : Rows xs ds es
  found : nbrs = (notDown E levels u pre).map E.destOf
  dist : ∀ v, assoc xs ds v =
    if v = u then some 0 else (firstTo E (notDown E levels u pre) v).map E.distOf
  edge : ∀ v, assoc xs es v =
    if v = u then some (-1) else firstTo E (notDown E levels u pre) v

theorem addNeighbour_spec (hU : Upward n E D levels) {pre nbrs : List Int} {e : Int}
    (he : e ∈ D.all u) (h : Neighbours E levels u pre nbrs xs ds es) :
    ∃ nbrs' xs' ds' es', Neighbours E levels u (pre ++ [e]) nbrs' xs' ds' es' ∧
      ∀ t, Table t xs ds es →
        ∃ t', addNeighbour E levels (level levels u) (t, nbrs) e = .ok (t', nbrs') ∧
          Table t' xs' ds' es' := by
  obtain ⟨hdest, hdist, hv0, hv1⟩ := hU.edge u e he
  have hne : E.destOf e ≠ u := by
    intro heq
    exact hU.separate u e he (by rw [heq])
  have hsmall : E.destOf e < MAX_VALUE := lt_of_lt_of_le hv1 hU.small
  have hlevel := hU.rd_level hv0 hv1
  by_cases hlow : level levels (E.destOf e) < level levels u
  · have hsame : notDown E levels u (pre ++ [e]) = notDown E levels u pre := by
      simp [notDown, hlow]
    refine ⟨nbrs, xs, ds, es, ⟨h.rows, ?_, ?_, ?_⟩, ?_⟩
    · rw [hsame]
      exact h.found
    · rw [hsame]
      exact h.dist
    · rw [hsame]
      exact h.edge
    · intro t ht
      refine ⟨t, ?_, ht⟩
      unfold addNeighbour
      simp only [hdest, ok_bind, hlevel, if_pos hlow]
      rfl
  · have hmore : notDown E levels u (pre ++ [e]) = notDown E levels u pre ++ [e] := by
      simp [notDown, not_lt.mp hlow]
    have hfound : nbrs ++ [E.destOf e] = (notDown E levels u (pre ++ [e])).map E.destOf := by
      rw [hmore, List.map_append, ← h.found]
      rfl
    by_cases hmem : E.destOf e ∈ xs
    · -- a later edge to the same node is not used
      obtain ⟨d, hd⟩ := exists_assoc_of_mem h.rows.distLength hmem
      have hold : ∀ v, firstTo E (notDown E levels u (pre ++ [e])) v
          = firstTo E (notDown E levels u pre) v := by
        intro v
        rw [hmore, firstTo_snoc]
        by_cases hve : E.destOf e = v
        · rw [h.dist, if_neg hne, Option.map_eq_some_iff] at hd
          obtain ⟨e', he', _⟩ := hd
          rw [← hve, he']
          rfl
        · rw [if_neg hve, Option.or_none]
      refine ⟨nbrs ++ [E.destOf e], xs, ds, es, ⟨h.rows, hfound, ?_, ?_⟩, ?_⟩
      · intro v
        rw [hold]
        exact h.dist v
      · intro v
        rw [hold]
        exact h.edge v
      · intro t ht
        refine ⟨t, ?_, ht⟩
        have hidx : ¬ encodeRank xs (E.destOf e) < 0 := by
          rw [encodeRank, if_pos hmem]
          omega
        unfold addNeighbour
        simp only [hdest, ok_bind, hlevel, if_neg hlow, hdist, ht.getIdx h.rows hsmall,
          if_neg hidx]
        rfl
    · obtain ⟨xs', ds', es', hrows, hD, hF, hrun⟩ :=
        insertRow_spec h.rows hsmall hmem (E.distOf e) e
      have hnone : firstTo E (notDown E levels u pre) (E.destOf e) = none := by
        have := h.dist (E.destOf e)
        rw [assoc_of_not_mem hmem, if_neg hne] at this
        simpa using this.symm
      refine ⟨nbrs ++ [E.destOf e], xs', ds', es', ⟨hrows, hfound, ?_, ?_⟩, ?_⟩
      · intro v
        rw [hD, hmore, firstTo_snoc]
        by_cases hve : v = E.destOf e
        · subst hve
          rw [if_pos rfl, if_neg hne, hnone, if_pos rfl]
          rfl
        · rw [if_neg hve, if_neg (Ne.symm hve), Option.or_none]
          exact h.dist v
      · intro v
        rw [hF, hmore, firstTo_snoc]
        by_cases hve : v = E.destOf e
        · subst hve
          rw [if_pos rfl, if_neg hne, hnone, if_pos rfl]
          rfl
        · rw [if_neg hve, if_neg (Ne.symm hve), Option.or_none]
          exact h.edge v
      · intro t ht
        obtain ⟨t', hins, ht'⟩ := hrun t ht
        refine ⟨t', ?_, ht'⟩
        have hidx : encodeRank xs (E.destOf e) < 0 := by
          rw [encodeRank, if_neg hmem]
          omega
        unfold addNeighbour
        simp only [hdest, ok_bind, hlevel, if_neg hlow, hdist, ht.getIdx h.rows hsmall,
          if_pos hidx, hins]
        rfl

/-- The loop over the edges of the node. -/
theorem addNeighbours_spec (hU : Upward n E D levels) (hu : u < MAX_VALUE) :
    ∃ xs ds es, Rows xs ds es ∧
      (∀ v, assoc xs ds v = if v = u then some 0 else
        (firstTo E (ups E D levels u) v).map E.distOf) ∧
      (∀ v, assoc xs es v = if v = u then some (-1) else firstTo E (ups E D levels u) v) ∧
      ∀ t, Table t [u] [0] [-1] →
        ∃ t', (D.all u).foldlM (addNeighbour E levels (level levels u)) (t, [])
            = .ok (t', (ups E D levels u).map E.destOf) ∧ Table t' xs ds es := by
  obtain ⟨⟨nbrs, xs, ds, es⟩, h, hrun⟩ := foldlM_abstract
    (f := fun _ : Unit => addNeighbour E levels (level levels u))
    (Q := fun pre (a : List Int × List Int × List Int × List Int) =>
      Neighbours E levels u pre a.1 a.2.1 a.2.2.1 a.2.2.2)
    (R := fun _ a st => st.2 = a.1 ∧ Table st.1 a.2.1 a.2.2.1 a.2.2.2)
    (D.all u) ([], [u], [0], [-1])
    ⟨rows_start hu, rfl, by intro v; simp [assoc, firstTo, notDown],
      by intro v; simp [assoc, firstTo, notDown]⟩ (by
      rintro pre e post ⟨nbrs, xs, ds, es⟩ hl h
      obtain ⟨nbrs', xs', ds', es', h', hrun⟩ := addNeighbour_spec hU (e := e)
        (by rw [hl]; simp) h
      refine ⟨(nbrs', xs', ds', es'), h', ?_⟩
      rintro _ ⟨t, _⟩ ⟨rfl, ht⟩
      obtain ⟨t', hstep, ht'⟩ := hrun t ht
      exact ⟨(t', nbrs'), hstep, rfl, ht'⟩)
  refine ⟨xs, ds, es, h.rows, h.dist, h.edge, ?_⟩
  intro t ht
  obtain ⟨⟨t', nbrs'⟩, hloop, hnbrs, ht'⟩ := hrun () (t, []) ⟨rfl, ht⟩
  refine ⟨t', ?_, ht'⟩
  rw [hloop, show nbrs' = (ups E D levels u).map E.destOf from hnbrs.trans h.found]

/-! ## The labels of the neighbours -/

variable {G : Int → Int → Int → Prop} {S : Int → Prop} {L : Labels}

/-- The labels of the node `x`. -/
structure Row (L : Labels) (x : Int) (hs es ds : List Int) : Prop where
  nodes : rd L.labelNodes x = .ok (some hs)
  edges : rd L.labelEdges x = .ok (some es)
  dists : rd L.labelDist x = .ok (some ds)

theorem Row.unique {x : Int} {hs es ds hs' es' ds' : List Int} (h : Row L x hs es ds)
    (h' : Row L x hs' es' ds') : hs = hs' ∧ es = es' ∧ ds = ds' := by
  have h1 := h.nodes.symm.trans h'.nodes
  have h2 := h.edges.symm.trans h'.edges
  have h3 := h.dists.symm.trans h'.dists
  simp only [Except.ok.injEq, Option.some.injEq] at h1 h2 h3
  exact ⟨h1, h2, h3⟩

/-- The nodes in `S` have the same labels in both. -/
def Agree (S : Int → Prop) (L L' : Labels) : Prop :=
  ∀ x hs es ds, S x → Row L x hs es ds → Row L' x hs es ds

/-- What the labels `hs` of a node keep whatever the edges are; the nodes of the
set `S` have their labels. -/
structure Fair (G : Int → Int → Int → Prop) (E : Edges) (D : DynamicGrid) (levels : List Int)
    (S : Int → Prop) (u : Int) (hs es ds : List Int) : Prop where
  rows : Rows hs ds es
  self : assoc hs ds u = some 0
  selfEdge : assoc hs es u = some (-1)
  member : ∀ h ∈ hs, h = u ∨ S h ∧ level levels u < level levels h
  reach : ∀ h d, assoc hs ds h = some d → h ≠ u → ∃ e m, assoc hs es h = some e ∧
    firstTo E (ups E D levels u) (E.destOf e) = some e ∧ Walk G (E.destOf e) h m ∧
    d = E.distOf e + m ∧ level levels (E.destOf e) ≤ level levels h

/-- The labels of the nodes in `S` are there. -/
def Labelled (G : Int → Int → Int → Prop) (n : Nat) (E : Edges) (D : DynamicGrid)
    (levels : List Int) (S : Int → Prop) (L : Labels) : Prop :=
  ∀ x, S x → (0 ≤ x ∧ x < n) ∧ ∃ hs es ds, Row L x hs es ds ∧ Fair G E D levels S x hs es ds

theorem Fair.walk (h : Fair G E D levels S u xs es ds)
    (hwalk : ∀ e ∈ ups E D levels u, Walk G u (E.destOf e) (E.distOf e)) {x d : Int}
    (hd : assoc xs ds x = some d) : Walk G u x d := by
  by_cases hx : x = u
  · subst hx
    rw [h.self, Option.some.injEq] at hd
    subst hd
    exact Walk.nil x
  · obtain ⟨e, m, _, hfirst, hm, rfl, _⟩ := h.reach x d hd hx
    exact (hwalk e (firstTo_some hfirst).1).append hm

/-- No distance of the table has grown. -/
def Lower (xs ds xs' ds' : List Int) : Prop :=
  ∀ h d, assoc xs ds h = some d → ∃ d', assoc xs' ds' h = some d' ∧ d' ≤ d

theorem Lower.refl (xs ds : List Int) : Lower xs ds xs ds := fun _ d h => ⟨d, h, le_refl d⟩

theorem Lower.trans {xs' ds' xs'' ds'' : List Int} (h : Lower xs ds xs' ds')
    (h' : Lower xs' ds' xs'' ds'') : Lower xs ds xs'' ds'' := by
  intro x d hd
  obtain ⟨d', hd', hle⟩ := h x d hd
  obtain ⟨d'', hd'', hle'⟩ := h' x d' hd'
  exact ⟨d'', hd'', hle'.trans hle⟩

/-- One label of a neighbour, over the edge `e₀`. -/
theorem addLabel_fair (h : Fair G E D levels S u xs es ds) {labels dist : List Int} {i : Nat}
    {x l b m e₀ : Int} (hx : labels[i]? = some x) (hl : dist[i]? = some l) (hsmall : x < MAX_VALUE)
    (hS : S x) (hup : level levels u < level levels x)
    (hfirst : firstTo E (ups E D levels u) (E.destOf e₀) = some e₀)
    (hwalk : Walk G (E.destOf e₀) x (m + l)) (hb : b = E.distOf e₀ + m)
    (hlevel : level levels (E.destOf e₀) ≤ level levels x) :
    ∃ xs' ds' es', Fair G E D levels S u xs' es' ds' ∧ Lower xs ds xs' ds' ∧
      (∃ d', assoc xs' ds' x = some d' ∧ d' ≤ b + l) ∧
      ∀ t, Table t xs ds es →
        ∃ t', addLabel b e₀ labels dist t i = .ok t' ∧ Table t' xs' ds' es' := by
  have hne : x ≠ u := by
    intro heq
    rw [heq] at hup
    omega
  obtain ⟨xs', ds', es', hrows, hcase, hrun⟩ := addLabel_spec h.rows hx hl hsmall b e₀
  refine ⟨xs', ds', es', ?_, ?_, ?_, hrun⟩
  · rcases hcase with ⟨hless, hD, hF⟩ | ⟨_, rfl, rfl, rfl⟩
    · refine ⟨hrows, ?_, ?_, ?_, ?_⟩
      · rw [hD, if_neg (Ne.symm hne)]
        exact h.self
      · rw [hF, if_neg (Ne.symm hne)]
        exact h.selfEdge
      · intro y hy
        by_cases hyx : y = x
        · subst hyx
          exact Or.inr ⟨hS, hup⟩
        · obtain ⟨d, hd⟩ := exists_assoc_of_mem hrows.distLength hy
          rw [hD, if_neg hyx] at hd
          exact h.member y (mem_of_assoc hd)
      · intro y d hd hyu
        rw [hD] at hd
        rw [hF]
        by_cases hyx : y = x
        · subst hyx
          rw [if_pos rfl, Option.some.injEq] at hd
          rw [if_pos rfl]
          exact ⟨e₀, m + l, rfl, hfirst, hwalk, by omega, hlevel⟩
        · rw [if_neg hyx] at hd
          rw [if_neg hyx]
          exact h.reach y d hd hyu
    · exact h
  · rcases hcase with ⟨hless, hD, _⟩ | ⟨_, rfl, rfl, rfl⟩
    · intro y d hd
      rw [hD]
      by_cases hyx : y = x
      · subst hyx
        rw [if_pos rfl]
        exact ⟨b + l, rfl, le_of_lt (hless d hd)⟩
      · rw [if_neg hyx]
        exact ⟨d, hd, le_refl d⟩
    · exact Lower.refl _ _
  · rcases hcase with ⟨_, hD, _⟩ | ⟨⟨d, hd, hle⟩, rfl, rfl, rfl⟩
    · exact ⟨b + l, by rw [hD, if_pos rfl], le_refl _⟩
    · exact ⟨d, hd, hle⟩

/-- All labels of the neighbour `x`. -/
theorem addLabelsOf_spec (hU : Upward n E D levels) (hL : Labelled G n E D levels S L)
    (hwalk : ∀ x, ∀ e ∈ ups E D levels x, Walk G x (E.destOf e) (E.distOf e))
    (h : Fair G E D levels S u xs es ds) {x : Int} (hxu : x ≠ u) {hs es₁ ds₁ : List Int}
    (hrow : Row L x hs es₁ ds₁) {b : Int} (hb : assoc xs ds x = some b) :
    ∃ xs' ds' es', Fair G E D levels S u xs' es' ds' ∧ Lower xs ds xs' ds' ∧
      (∀ y l, assoc hs ds₁ y = some l → ∃ d', assoc xs' ds' y = some d' ∧ d' ≤ b + l) ∧
      ∀ L' t, Agree S L L' → Table t xs ds es →
        ∃ t', addLabelsOf L' t x = .ok t' ∧ Table t' xs' ds' es' := by
  obtain ⟨hSx, hux⟩ := (h.member x (mem_of_assoc hb)).resolve_left hxu
  obtain ⟨hnode, hs', es', ds', hrow', hfair⟩ := hL x hSx
  obtain ⟨rfl, rfl, rfl⟩ := hrow.unique hrow'
  obtain ⟨e₀, m, he₀, hfirst, hm, hbm, hlevel⟩ := h.reach x b hb hxu
  have hsmall := hU.small
  have hnd := nodup_of_sorted hfair.rows.sorted
  obtain ⟨⟨xs', ds', es'⟩, ⟨hf', hlow, hcov⟩, hrun⟩ := foldlM_abstract
    (f := fun _ : Unit => addLabel b e₀ hs ds₁)
    (Q := fun pre (a : List Int × List Int × List Int) =>
      Fair G E D levels S u a.1 a.2.2 a.2.1 ∧ Lower xs ds a.1 a.2.1 ∧
      ∀ (i : Nat) (y l : Int), (i : Int) ∈ pre → hs[i]? = some y → ds₁[i]? = some l →
        ∃ d', assoc a.1 a.2.1 y = some d' ∧ d' ≤ b + l)
    (R := fun _ a t => Table t a.1 a.2.1 a.2.2)
    (indices 0 hs.length) (xs, ds, es) ⟨h, Lower.refl _ _, by simp⟩ (by
      rintro pre k post ⟨xs', ds', es'⟩ hl ⟨hf, hlow, hcov⟩
      have hk : k ∈ indices 0 hs.length := by rw [hl]; simp
      obtain ⟨hk0, hk1⟩ := mem_indices.mp hk
      obtain ⟨i, rfl⟩ : ∃ i : Nat, k = i := ⟨k.toNat, by omega⟩
      have hi : i < hs.length := by omega
      have hdl := hfair.rows.distLength
      have hyi := List.getElem?_eq_getElem hi
      have hli := List.getElem?_eq_getElem (l := ds₁) (i := i) (by omega)
      generalize hs[i] = y at hyi
      generalize ds₁[i] = l at hli
      have hassoc : assoc hs ds₁ y = some l := by
        rw [assoc_of_getElem? hnd hyi, hli]
      have hwl : Walk G x y l := hfair.walk (hwalk x) hassoc
      have hy : S y ∧ level levels x ≤ level levels y := by
        rcases hfair.member y (List.mem_of_getElem? hyi) with rfl | ⟨hSy, hlt⟩
        · exact ⟨hSx, le_refl _⟩
        · exact ⟨hSy, le_of_lt hlt⟩
      have hyn := (hL y hy.1).1
      obtain ⟨xs₂, ds₂, es₂, hf₂, hlow₂, ⟨d₂, hd₂, hle₂⟩, hrun₂⟩ :=
        addLabel_fair hf hyi hli (by omega) hy.1 (by omega) hfirst (hm.append hwl) hbm
          (by omega)
      refine ⟨(xs₂, ds₂, es₂), ⟨hf₂, hlow.trans hlow₂, ?_⟩, fun _ t ht => hrun₂ t ht⟩
      intro j z r hj hz hr
      rcases List.mem_append.mp hj with hj | hj
      · obtain ⟨d', hd', hle'⟩ := hcov j z r hj hz hr
        obtain ⟨d'', hd'', hle''⟩ := hlow₂ z d' hd'
        exact ⟨d'', hd'', hle''.trans hle'⟩
      · obtain rfl : j = i := by simpa using hj
        rw [hyi, Option.some.injEq] at hz
        rw [hli, Option.some.injEq] at hr
        subst hz hr
        exact ⟨d₂, hd₂, hle₂⟩)
  refine ⟨xs', ds', es', hf', hlow, ?_, ?_⟩
  · intro y l hl
    obtain ⟨i, hi⟩ := List.mem_iff_getElem?.mp (mem_of_assoc hl)
    rw [assoc_of_getElem? hnd hi] at hl
    have := (List.getElem?_eq_some_iff.mp hi).1
    exact hcov i y l (mem_indices.mpr ⟨by omega, by omega⟩) hi hl
  · intro L' t hagree ht
    have hrow' := hagree x hs es₁ ds₁ hSx hrow
    obtain ⟨hidx, hgd, hge⟩ := ht.read h.rows hb he₀
    obtain ⟨t', hloop, ht'⟩ := hrun () t ht
    refine ⟨t', ?_, ht'⟩
    unfold addLabelsOf
    rw [ht.getIdx h.rows (by omega), ok_bind, hidx, hgd, ok_bind, hge, ok_bind, Labels.getLabels,
      hrow'.nodes, ok_bind, Labels.getDist, hrow'.dists]
    exact hloop

/-- The loop over the neighbours. -/
theorem addAllLabels_spec (hU : Upward n E D levels) (hL : Labelled G n E D levels S L)
    (hwalk : ∀ x, ∀ e ∈ ups E D levels x, Walk G x (E.destOf e) (E.distOf e))
    (hS : ∀ e ∈ ups E D levels u, S (E.destOf e)) (hrows : Rows xs ds es)
    (hD : ∀ v, assoc xs ds v = if v = u then some 0 else
      (firstTo E (ups E D levels u) v).map E.distOf)
    (hF : ∀ v, assoc xs es v = if v = u then some (-1) else firstTo E (ups E D levels u) v) :
    ∃ xs' ds' es', Fair G E D levels S u xs' es' ds' ∧
      (∀ x e hs es₁ ds₁, firstTo E (ups E D levels u) x = some e → Row L x hs es₁ ds₁ →
        ∀ y l, assoc hs ds₁ y = some l →
          ∃ d', assoc xs' ds' y = some d' ∧ d' ≤ E.distOf e + l) ∧
      ∀ L' t, Agree S L L' → Table t xs ds es →
        ∃ t', ((ups E D levels u).map E.destOf).foldlM (addLabelsOf L') t = .ok t' ∧
          Table t' xs' ds' es' := by
  have hfair : Fair G E D levels S u xs es ds := by
    refine ⟨hrows, by rw [hD, if_pos rfl], by rw [hF, if_pos rfl], ?_, ?_⟩
    · intro x hx
      by_cases hxu : x = u
      · exact Or.inl hxu
      · obtain ⟨e, he⟩ := exists_assoc_of_mem hrows.edgeLength hx
        rw [hF, if_neg hxu] at he
        obtain ⟨hmem, rfl⟩ := firstTo_some he
        exact Or.inr ⟨hS e hmem, ((mem_ups hU).mp hmem).2⟩
    · intro x d hd hxu
      rw [hD, if_neg hxu, Option.map_eq_some_iff] at hd
      obtain ⟨e, he, rfl⟩ := hd
      obtain ⟨_, rfl⟩ := firstTo_some he
      exact ⟨e, 0, by rw [hF, if_neg hxu, he], he, Walk.nil _, by omega, le_refl _⟩
  have hbase : ∀ x e, firstTo E (ups E D levels u) x = some e →
      x ≠ u ∧ assoc xs ds x = some (E.distOf e) := by
    intro x e he
    obtain ⟨hmem, rfl⟩ := firstTo_some he
    have hne : E.destOf e ≠ u := by
      intro heq
      have := ((mem_ups hU).mp hmem).2
      rw [heq] at this
      omega
    refine ⟨hne, ?_⟩
    rw [hD, if_neg hne, he]
    rfl
  obtain ⟨⟨xs', ds', es'⟩, ⟨hf', hlow, hcov⟩, hrun⟩ := foldlM_abstract (f := addLabelsOf)
    (Q := fun pre (a : List Int × List Int × List Int) => Fair G E D levels S u a.1 a.2.2 a.2.1 ∧
      Lower xs ds a.1 a.2.1 ∧ ∀ x ∈ pre, ∀ e hs es₁ ds₁,
        firstTo E (ups E D levels u) x = some e → Row L x hs es₁ ds₁ → ∀ y l,
          assoc hs ds₁ y = some l → ∃ d', assoc a.1 a.2.1 y = some d' ∧ d' ≤ E.distOf e + l)
    (R := fun L' a t => Agree S L L' ∧ Table t a.1 a.2.1 a.2.2)
    ((ups E D levels u).map E.destOf) (xs, ds, es) ⟨hfair, Lower.refl _ _, by simp⟩ (by
      rintro pre x post ⟨xs', ds', es'⟩ hl ⟨hf, hlow, hcov⟩
      have hx : x ∈ (ups E D levels u).map E.destOf := by rw [hl]; simp
      obtain ⟨e, he, rfl⟩ := List.mem_map.mp hx
      obtain ⟨e', he'⟩ := exists_firstTo (E := E) he
      obtain ⟨hne, hb⟩ := hbase _ e' he'
      obtain ⟨b, hb₁, hble⟩ := hlow _ _ hb
      obtain ⟨_, hs, es₂, ds₂, hrow, _⟩ := hL _ (hS e he)
      obtain ⟨xs₃, ds₃, es₃, hf₃, hlow₃, hcov₃, hrun₃⟩ :=
        addLabelsOf_spec hU hL hwalk hf hne hrow hb₁
      refine ⟨(xs₃, ds₃, es₃), ⟨hf₃, hlow.trans hlow₃, ?_⟩, ?_⟩
      · intro z hz e'' hs' es' ds' hfirst hrow' y l hyl
        rcases List.mem_append.mp hz with hz | hz
        · obtain ⟨d', hd', hle'⟩ := hcov z hz e'' hs' es' ds' hfirst hrow' y l hyl
          obtain ⟨d'', hd'', hle''⟩ := hlow₃ y d' hd'
          exact ⟨d'', hd'', hle''.trans hle'⟩
        · obtain rfl : z = E.destOf e := by simpa using hz
          obtain ⟨rfl, rfl, rfl⟩ := hrow.unique hrow'
          rw [he', Option.some.injEq] at hfirst
          subst hfirst
          obtain ⟨d', hd', hle'⟩ := hcov₃ y l hyl
          exact ⟨d', hd', by omega⟩
      · intro L' t hR
        obtain ⟨t', hstep, ht'⟩ := hrun₃ L' t hR.1 hR.2
        exact ⟨t', hstep, hR.1, ht'⟩)
  refine ⟨xs', ds', es', hf', ?_, ?_⟩
  · intro x e hs es₁ ds₁ hfirst
    obtain ⟨hmem, rfl⟩ := firstTo_some hfirst
    exact hcov _ (List.mem_map_of_mem hmem) e hs es₁ ds₁ hfirst
  · intro L' t hagree ht
    obtain ⟨t', hloop, _, ht'⟩ := hrun L' t ⟨hagree, ht⟩
    exact ⟨t', hloop, ht'⟩

/-! ## The removal -/

/-- Rows of a table were removed, but not the one of `u`. -/
structure Sub (u : Int) (xs ds es xs' ds' es' : List Int) : Prop where
  self : u ∈ xs → u ∈ xs'
  rows : ∀ x ∈ xs', x ∈ xs ∧ assoc xs' ds' x = assoc xs ds x ∧ assoc xs' es' x = assoc xs es x

theorem Sub.trans {xs' ds' es' xs'' ds'' es'' : List Int} (h : Sub u xs ds es xs' ds' es')
    (h' : Sub u xs' ds' es' xs'' ds'' es'') : Sub u xs ds es xs'' ds'' es'' := by
  refine ⟨fun hu => h'.self (h.self hu), ?_⟩
  intro x hx
  obtain ⟨h1, h2, h3⟩ := h'.rows x hx
  obtain ⟨h4, h5, h6⟩ := h.rows x h1
  exact ⟨h4, h2.trans h5, h3.trans h6⟩

theorem Fair.sub {xs' ds' es' : List Int} (h : Fair G E D levels S u xs es ds)
    (hrows : Rows xs' ds' es') (hsub : Sub u xs ds es xs' ds' es') :
    Fair G E D levels S u xs' es' ds' := by
  have hself := hsub.rows u (hsub.self (mem_of_assoc h.self))
  refine ⟨hrows, ?_, ?_, ?_, ?_⟩
  · rw [hself.2.1]
    exact h.self
  · rw [hself.2.2]
    exact h.selfEdge
  · exact fun x hx => h.member x (hsub.rows x hx).1
  · intro x d hd hxu
    obtain ⟨_, h1, h2⟩ := hsub.rows x (mem_of_assoc hd)
    rw [h1] at hd
    rw [h2]
    exact h.reach x d hd hxu

/-- The row at an index is removed. -/
theorem Rows.remove (h : Rows xs ds es) {k : Nat} {x : Int} (hk : xs[k]? = some x) (hxu : x ≠ u) :
    Rows (xs.eraseIdx k) (ds.eraseIdx k) (es.eraseIdx k) ∧
      Sub u xs ds es (xs.eraseIdx k) (ds.eraseIdx k) (es.eraseIdx k) ∧
      (∀ y ∈ xs, y ≠ x → y ∈ xs.eraseIdx k) ∧
      ∀ t, Table t xs ds es → ∃ s₁ s₂ s₃, t.foundIds.removeAtIdx k = .ok s₁ ∧
        t.distances.removeAtIdx k = .ok s₂ ∧ t.firstEdgeId.removeAtIdx k = .ok s₃ ∧
        Table ⟨s₁, s₂, s₃⟩ (xs.eraseIdx k) (ds.eraseIdx k) (es.eraseIdx k) := by
  have hlt := (List.getElem?_eq_some_iff.mp hk).1
  have hnd := nodup_of_sorted h.sorted
  have hdl := h.distLength
  have hel := h.edgeLength
  have hdl' : (ds.eraseIdx k).length = (xs.eraseIdx k).length := by
    rw [List.length_eraseIdx_of_lt hlt, List.length_eraseIdx_of_lt (by omega), hdl]
  have hel' : (es.eraseIdx k).length = (xs.eraseIdx k).length := by
    rw [List.length_eraseIdx_of_lt hlt, List.length_eraseIdx_of_lt (by omega), hel]
  have hkeep : ∀ y ∈ xs, y ≠ x → y ∈ xs.eraseIdx k := by
    intro y hy hyx
    obtain ⟨d, hd⟩ := exists_assoc_of_mem hdl hy
    have := assoc_eraseIdx hdl hnd hk y
    rw [if_neg hyx, hd] at this
    exact mem_of_assoc this
  refine ⟨⟨pairwise_eraseIdx h.sorted k, ?_, hdl', hel'⟩,
    ⟨fun hu => hkeep u hu (Ne.symm hxu), ?_⟩, hkeep, ?_⟩
  · exact fun y hy => h.small y (List.mem_of_mem_eraseIdx hy)
  · intro y hy
    have hyx : y ≠ x := by
      intro heq
      obtain ⟨d, hd⟩ := exists_assoc_of_mem hdl' hy
      rw [assoc_eraseIdx hdl hnd hk, if_pos heq] at hd
      simp at hd
    refine ⟨List.mem_of_mem_eraseIdx hy, ?_, ?_⟩
    · rw [assoc_eraseIdx hdl hnd hk, if_neg hyx]
    · rw [assoc_eraseIdx hel hnd hk, if_neg hyx]
  · intro t ht
    obtain ⟨s₁, h₁, hord₁, hs₁⟩ := OrderedIntSet.removeAtIdx_spec ht.ids hlt
    obtain ⟨s₂, h₂, _, hs₂⟩ := OrderedIntSet.removeAtIdx_spec ht.dist (n := k) (by omega)
    obtain ⟨s₃, h₃, _, hs₃⟩ := OrderedIntSet.removeAtIdx_spec ht.edge (n := k) (by omega)
    exact ⟨s₁, s₂, s₃, h₁, h₂, h₃, hs₁, hord₁.trans ht.ordered, hs₂, hs₃⟩

/-- The check of a row decides `Keep`, as long as the rows to keep are there. -/
def Decides (L : Labels) (u : Int) (xs ds es : List Int) (Keep : Int → Prop) : Prop :=
  ∀ xs' ds' es', Sub u xs ds es xs' ds' es' → (∀ x ∈ xs, x = u ∨ Keep x → x ∈ xs') →
    ∀ x d hs es₁ ds₁, assoc xs' ds' x = some d → x ≠ u → Row L x hs es₁ ds₁ →
      (Labels.Redundant hs xs' ds₁ ds' x d ↔ ¬ Keep x)

/-- The rows at the index `j` of the removal. -/
structure Removing (L : Labels) (u : Int) (xs ds es : List Int) (j : Nat)
    (xs' ds' es' : List Int) : Prop where
  rows : Rows xs' ds' es'
  sub : Sub u xs ds es xs' ds' es'
  le : j ≤ xs'.length
  kept : ∀ Keep, Decides L u xs ds es Keep → ∀ x ∈ xs, x = u ∨ Keep x → x ∈ xs'
  checked : ∀ Keep, Decides L u xs ds es Keep → ∀ (i : Nat) (x : Int), i < j →
    xs'[i]? = some x → x = u ∨ Keep x

/-- A row that stays is passed. -/
theorem Removing.pass {xs₀ ds₀ es₀ : List Int} {j : Nat} {x : Int}
    (h : Removing L u xs₀ ds₀ es₀ j xs ds es) (hx : xs[j]? = some x)
    (hkeep : ∀ Keep, Decides L u xs₀ ds₀ es₀ Keep → x = u ∨ Keep x) :
    Removing L u xs₀ ds₀ es₀ (j + 1) xs ds es := by
  refine ⟨h.rows, h.sub, (List.getElem?_eq_some_iff.mp hx).1, h.kept, ?_⟩
  intro Keep hK i y hi hy
  by_cases hij : i = j
  · subst hij
    rw [hx, Option.some.injEq] at hy
    subst hy
    exact hkeep Keep hK
  · exact h.checked Keep hK i y (by omega) hy

theorem removeRedundancy_spec {xs₀ ds₀ es₀ : List Int} {j : Nat}
    (h : Removing L u xs₀ ds₀ es₀ j xs ds es)
    (hrow : ∀ x ∈ xs₀, x ≠ u → S x ∧ ∃ hs es₁ ds₁, Row L x hs es₁ ds₁ ∧ Rows hs ds₁ es₁)
    (hj : j < xs.length) :
    ∃ (j' : Nat) (xs' ds' es' : List Int), Removing L u xs₀ ds₀ es₀ j' xs' ds' es' ∧
      xs'.length - j' < xs.length - j ∧
      ∀ L' t, Agree S L L' → Table t xs ds es →
        ∃ t', removeRedundancy L' u (t, (j : Int)) = .ok (t', (j' : Int)) ∧
          Table t' xs' ds' es' := by
  have hxj := List.getElem?_eq_getElem hj
  generalize xs[j] = x at hxj
  by_cases hxu : x = u
  · refine ⟨j + 1, xs, ds, es, h.pass hxj fun _ _ => Or.inl hxu, by omega, ?_⟩
    intro L' t _ ht
    refine ⟨t, ?_, ht⟩
    unfold removeRedundancy
    simp only [OrderedIntSet.get_spec ht.ids hxj, ok_bind, if_pos hxu]
    push_cast
    rfl
  · have hmem := List.mem_of_getElem? hxj
    obtain ⟨hSx, hs, es₁, ds₁, hr, hrows⟩ := hrow x (h.sub.rows x hmem).1 hxu
    obtain ⟨d, hd⟩ := exists_assoc_of_mem h.rows.distLength hmem
    have hdj := hd
    rw [assoc_of_getElem? (nodup_of_sorted h.rows.sorted) hxj] at hdj
    -- the answer of the check depends on the rows only
    have hcheck : ∀ L' t, Agree S L L' → Table t xs ds es →
        ∃ b, L'.isRedundant x d t.foundIds t.distances = .ok b ∧
          (b = true ↔ Labels.Redundant hs xs ds₁ ds x d) := by
      intro L' t hagree ht
      have hr' := hagree x hs es₁ ds₁ hSx hr
      exact Labels.isRedundant_spec (by rw [Labels.getLabels, hr'.nodes]; rfl)
        (by rw [Labels.getDist, hr'.dists]; rfl) ht.ids ht.dist hrows.sorted h.rows.sorted
        hrows.distLength h.rows.distLength d
    have hdec : ∀ Keep, Decides L u xs₀ ds₀ es₀ Keep →
        (Labels.Redundant hs xs ds₁ ds x d ↔ ¬ Keep x) := fun Keep hK =>
      hK xs ds es h.sub (h.kept Keep hK) x d hs es₁ ds₁ hd hxu hr
    by_cases hred : Labels.Redundant hs xs ds₁ ds x d
    · obtain ⟨hrows', hsub, hrest, hrun⟩ := h.rows.remove (u := u) hxj hxu
      refine ⟨j, xs.eraseIdx j, ds.eraseIdx j, es.eraseIdx j,
        ⟨hrows', h.sub.trans hsub, ?_, ?_, ?_⟩, ?_, ?_⟩
      · rw [List.length_eraseIdx_of_lt hj]
        omega
      · intro Keep hK y hy hkeep
        apply hrest y (h.kept Keep hK y hy hkeep)
        intro hyx
        subst hyx
        exact (hdec Keep hK).mp hred (hkeep.resolve_left hxu)
      · intro Keep hK i y hi hy
        rw [List.getElem?_eraseIdx_of_lt hi] at hy
        exact h.checked Keep hK i y hi hy
      · rw [List.length_eraseIdx_of_lt hj]
        omega
      · intro L' t hagree ht
        obtain ⟨b, hb, hiff⟩ := hcheck L' t hagree ht
        obtain rfl : b = true := hiff.mpr hred
        obtain ⟨s₁, s₂, s₃, h₁, h₂, h₃, ht'⟩ := hrun t ht
        refine ⟨⟨s₁, s₂, s₃⟩, ?_, ht'⟩
        unfold removeRedundancy
        simp only [OrderedIntSet.get_spec ht.ids hxj, ok_bind, if_neg hxu,
          OrderedIntSet.get_spec ht.dist hdj, hb, if_true, h₁, h₂, h₃]
        rfl
    · refine ⟨j + 1, xs, ds, es, h.pass hxj ?_, by omega, ?_⟩
      · intro Keep hK
        right
        by_contra hno
        exact hred ((hdec Keep hK).mpr hno)
      · intro L' t hagree ht
        obtain ⟨b, hb, hiff⟩ := hcheck L' t hagree ht
        obtain rfl : b = false := by
          cases b with
          | false => rfl
          | true => exact absurd (hiff.mp rfl) hred
        refine ⟨t, ?_, ht⟩
        unfold removeRedundancy
        simp only [OrderedIntSet.get_spec ht.ids hxj, ok_bind, if_neg hxu,
          OrderedIntSet.get_spec ht.dist hdj, hb]
        push_cast
        rfl

/-- The loop of the removal. -/
theorem removeRedundancies_spec (hrows : Rows xs ds es)
    (hrow : ∀ x ∈ xs, x ≠ u → S x ∧ ∃ hs es₁ ds₁, Row L x hs es₁ ds₁ ∧ Rows hs ds₁ es₁) :
    ∃ xs' ds' es', Rows xs' ds' es' ∧ Sub u xs ds es xs' ds' es' ∧
      (∀ Keep, Decides L u xs ds es Keep → ∀ x ∈ xs, (x ∈ xs' ↔ x = u ∨ Keep x)) ∧
      ∀ L' t, Agree S L L' → Table t xs ds es →
        ∃ t', removeRedundancies L' t u = .ok t' ∧ Table t' xs' ds' es' := by
  have hsub : Sub u xs ds es xs ds es := ⟨id, fun x hx => ⟨hx, rfl, rfl⟩⟩
  obtain ⟨⟨j, xs', ds', es'⟩, hrem, hexit, hrun⟩ := whileLoop_abstract
    (c := fun _ : Labels => fun st : HLDijkstra × Int => return st.2 < st.1.foundIds.size)
    (f := fun L' => removeRedundancy L' u)
    (Q := fun a : Nat × List Int × List Int × List Int =>
      Removing L u xs ds es a.1 a.2.1 a.2.2.1 a.2.2.2)
    (g := fun a => decide (a.1 < a.2.1.length)) (μ := fun a => a.2.1.length - a.1)
    (R := fun L' a st => Agree S L L' ∧ st.2 = (a.1 : Int) ∧ Table st.1 a.2.1 a.2.2.1 a.2.2.2)
    (by
      rintro L' ⟨j, xs', ds', es'⟩ ⟨t, _⟩ _ ⟨_, rfl, ht⟩
      simp only [OrderedIntSet.size_eq ht.ids, pure_eq_ok]
      simp)
    (by
      rintro ⟨j, xs', ds', es'⟩ h hj
      obtain ⟨j', xs'', ds'', es'', h', hlt, hstep⟩ :=
        removeRedundancy_spec (S := S) h hrow (by simpa using hj)
      refine ⟨(j', xs'', ds'', es''), h', hlt, ?_⟩
      rintro L' ⟨t, _⟩ ⟨hagree, rfl, ht⟩
      obtain ⟨t', hrun, ht'⟩ := hstep L' t hagree ht
      exact ⟨(t', (j' : Int)), hrun, hagree, rfl, ht'⟩)
    (0, xs, ds, es) ⟨hrows, hsub, Nat.zero_le _, fun _ _ x hx _ => hx, by simp⟩
  refine ⟨xs', ds', es', hrem.rows, hrem.sub, ?_, ?_⟩
  · intro Keep hK x hx
    constructor
    · intro hmem
      obtain ⟨m, hm⟩ := List.mem_iff_getElem?.mp hmem
      have hlt := (List.getElem?_eq_some_iff.mp hm).1
      have hj : ¬ j < xs'.length := by simpa using hexit
      exact hrem.checked Keep hK m x (by omega) hm
    · exact hrem.kept Keep hK x hx
  · intro L' t hagree ht
    have hfuel : xs.length - 0 ≤ t.foundIds.size.toNat := by
      rw [OrderedIntSet.size_eq ht.ids]
      simp
    obtain ⟨⟨t', _⟩, hloop, _, _, ht'⟩ := hrun L' (t, 0) t.foundIds.size.toNat
      ⟨hagree, rfl, ht⟩ hfuel
    refine ⟨t', ?_, ht'⟩
    unfold removeRedundancies
    rw [hloop]
    rfl

/-! ## The labels of a node -/

theorem row_put {L' : Labels} (h : L'.Sized n) {x : Int} (h0 : 0 ≤ u) (h1 : u < n)
    {hs es ds : List Int} {hs' es' ds' : List Int} :
    Row (L'.put u hs es ds) x hs' es' ds' ↔
      if x = u then hs' = hs ∧ es' = es ∧ ds' = ds else Row L' x hs' es' ds' := by
  have hn := rd_set (a := L'.labelNodes) (j := x) (x := some hs) h0 (by rw [h.nodes]; exact h1)
  have he := rd_set (a := L'.labelEdges) (j := x) (x := some es) h0 (by rw [h.edges]; exact h1)
  have hd := rd_set (a := L'.labelDist) (j := x) (x := some ds) h0 (by rw [h.dists]; exact h1)
  by_cases hx : x = u
  · rw [if_pos hx] at hn he hd ⊢
    constructor
    · intro hrow
      have h1 := hn.symm.trans hrow.nodes
      have h2 := he.symm.trans hrow.edges
      have h3 := hd.symm.trans hrow.dists
      simp only [Except.ok.injEq, Option.some.injEq] at h1 h2 h3
      exact ⟨h1.symm, h2.symm, h3.symm⟩
    · intro heq
      rw [heq.1, heq.2.1, heq.2.2]
      exact ⟨hn, he, hd⟩
  · rw [if_neg hx] at hn he hd ⊢
    constructor
    · intro hrow
      exact ⟨hn.symm.trans hrow.nodes, he.symm.trans hrow.edges, hd.symm.trans hrow.dists⟩
    · intro hrow
      exact ⟨hn.trans hrow.nodes, he.trans hrow.edges, hd.trans hrow.dists⟩

/-- The labels of a node are its hubs, with their distances. -/
def Canonical (G : Int → Int → Int → Prop) (rank : Int → Int) (u : Int) (hs ds : List Int) :
    Prop :=
  ∀ h d, assoc hs ds h = some d ↔ IsHub G rank u h ∧ IsDist G u h d

/-- To each hub of a node, a shortest way begins with an edge that is the first
one listed to its end. -/
def Launches (G : Int → Int → Int → Prop) (E : Edges) (D : DynamicGrid) (levels : List Int)
    (u : Int) : Prop :=
  ∀ h, h ≠ u → IsHub G (level levels) u h → ∃ x e b,
    firstTo E (ups E D levels u) x = some e ∧ IsDist G x h b ∧ IsDist G u h (E.distOf e + b)

section canonical

variable {U : Int → Int → Int → Prop}

/-- A hub is never redundant, and a label that is not one always is. -/
theorem decides_isHub (hR : Ranked G U (level levels))
    (hwalk : ∀ x, ∀ e ∈ ups E D levels x, Walk G x (E.destOf e) (E.distOf e))
    (hcan : ∀ x hs es ds, S x → Row L x hs es ds → Canonical G (level levels) x hs ds)
    (h : Fair G E D levels S u xs es ds)
    (hexact : ∀ g, g ≠ u → IsHub G (level levels) u g →
      ∃ d, assoc xs ds g = some d ∧ IsDist G u g d) :
    Decides L u xs ds es (IsHub G (level levels) u) := by
  intro xs' ds' es' hsub hkeep x d hs es₁ ds₁ hd hxu hrow
  have hxd := hd
  rw [(hsub.rows x (mem_of_assoc hd)).2.1] at hxd
  have hSx := ((h.member x (mem_of_assoc hxd)).resolve_left hxu).1
  have hxwalk : Walk G u x d := h.walk (hwalk u) hxd
  constructor
  · intro hred hhub
    obtain ⟨g, a, b, hgx, ha, hb, hle⟩ := hred
    obtain ⟨hxg, hda⟩ := (hcan x hs es₁ ds₁ hSx hrow g a).mp ha
    obtain ⟨d₀, hd₀, hdist⟩ := hexact x hxu hhub
    obtain rfl : d₀ = d := by
      rw [hxd, Option.some.injEq] at hd₀
      exact hd₀.symm
    have hbwalk : Walk G u g b := by
      rw [(hsub.rows g (mem_of_assoc hb)).2.1] at hb
      exact h.walk (hwalk u) hb
    -- the hub would lie behind a node of higher rank
    have hback := hda.1.reverse hR.symm
    have heq : b + a = d₀ := le_antisymm hle (hdist.add_le hbwalk hback)
    have hon : OnShortest G u x g := OnShortest.of_walk hbwalk hback (heq ▸ hdist)
    have h1 := hhub.top g hon hgx
    have h2 := hxg.rank_lt hR.nonneg (Ne.symm hgx)
    omega
  · intro hnot
    obtain ⟨d₁, hd₁⟩ := exists_isDist hR.nonneg hxwalk
    obtain ⟨g, hgx, hon, hug, hxg⟩ := hR.exists_hub_of_not_isHub hd₁ hnot
    obtain ⟨a, ha⟩ := hxg.joined
    have hga := (hcan x hs es₁ ds₁ hSx hrow g a).mpr ⟨hxg, ha⟩
    obtain ⟨b, hb, hub⟩ : ∃ b, assoc xs' ds' g = some b ∧ IsDist G u g b := by
      by_cases hgu : g = u
      · subst hgu
        refine ⟨0, ?_, isDist_self hR.nonneg g⟩
        rw [(hsub.rows g (hsub.self (mem_of_assoc h.self))).2.1]
        exact h.self
      · obtain ⟨b, hb, hub⟩ := hexact g hgu hug
        refine ⟨b, ?_, hub⟩
        rw [(hsub.rows g (hkeep g (mem_of_assoc hb) (Or.inr hug))).2.1]
        exact hb
    have hsum := hon.add hub (ha.symm hR.symm) hd₁
    have hle := hd₁.2 d hxwalk
    exact ⟨g, a, b, hgx, hga, hb, by omega⟩

/-- What is left after the removal are the hubs. -/
theorem canonical_of_removed (hR : Ranked G U (level levels)) {xs' ds' es' : List Int}
    (h : Fair G E D levels S u xs es ds)
    (hexact : ∀ g, g ≠ u → IsHub G (level levels) u g →
      ∃ d, assoc xs ds g = some d ∧ IsDist G u g d)
    (hsub : Sub u xs ds es xs' ds' es')
    (hkept : ∀ x ∈ xs, (x ∈ xs' ↔ x = u ∨ IsHub G (level levels) u x)) :
    Canonical G (level levels) u xs' ds' := by
  have hself : assoc xs' ds' u = some 0 := by
    rw [(hsub.rows u (hsub.self (mem_of_assoc h.self))).2.1]
    exact h.self
  intro g d
  by_cases hgu : g = u
  · subst hgu
    rw [hself, Option.some.injEq]
    constructor
    · intro hd
      rw [← hd]
      exact ⟨hR.isHub_self g, isDist_self hR.nonneg g⟩
    · intro hd
      exact (isDist_self hR.nonneg g).unique hd.2
  · constructor
    · intro hd
      obtain ⟨hmem, hrow, _⟩ := hsub.rows g (mem_of_assoc hd)
      have hhub := ((hkept g hmem).mp (mem_of_assoc hd)).resolve_left hgu
      obtain ⟨d', hd', hdist⟩ := hexact g hgu hhub
      rw [hrow, hd', Option.some.injEq] at hd
      exact ⟨hhub, hd ▸ hdist⟩
    · intro hd
      obtain ⟨d', hd', hdist⟩ := hexact g hgu hd.1
      have hmem := (hkept g (mem_of_assoc hd')).mpr (Or.inr hd.1)
      rw [(hsub.rows g hmem).2.1, hd', hdist.unique hd.2]

end canonical

/-- `calcLabels` of a node whose neighbours upwards have their labels.  The new
labels depend neither on the arrays of the thread nor on the labels of other
nodes than those of `S`. -/
theorem calcLabels_spec (hU : Upward n E D levels) (hL : Labelled G n E D levels S L)
    (hwalk : ∀ x, ∀ e ∈ ups E D levels x, Walk G x (E.destOf e) (E.distOf e)) (h0 : 0 ≤ u)
    (h1 : u < n) (hS : ∀ e ∈ ups E D levels u, S (E.destOf e)) :
    ∃ hs es ds, Fair G E D levels S u hs es ds ∧
      (∀ U, Ranked G U (level levels) → Launches G E D levels u →
        (∀ x hs es ds, S x → Row L x hs es ds → Canonical G (level levels) x hs ds) →
        Canonical G (level levels) u hs ds) ∧
      ∀ L' t, Agree S L L' → L'.Sized n → Ready t →
        ∃ t', calcLabels E D levels (t, L') u = .ok (t', L'.put u hs es ds) ∧ Ready t' := by
  have hsmall : u < MAX_VALUE := lt_of_lt_of_le h1 hU.small
  obtain ⟨xs₁, ds₁, es₁, hr₁, hD₁, hF₁, hrun₁⟩ := addNeighbours_spec (u := u) hU hsmall
  obtain ⟨xs₂, ds₂, es₂, hf₂, hcov, hrun₂⟩ := addAllLabels_spec hU hL hwalk hS hr₁ hD₁ hF₁
  obtain ⟨xs₃, ds₃, es₃, hr₃, hsub, hkept, hrun₃⟩ := removeRedundancies_spec (S := S) (L := L)
    (u := u) hf₂.rows (by
      intro x hx hxu
      obtain ⟨hSx, _⟩ := (hf₂.member x hx).resolve_left hxu
      obtain ⟨_, hs, es, ds, hrow, hfair⟩ := hL x hSx
      exact ⟨hSx, hs, es, ds, hrow, hfair.rows⟩)
  refine ⟨xs₃, es₃, ds₃, hf₂.sub hr₃ hsub, ?_, ?_⟩
  · intro U hR hlaunch hcan
    have hexact : ∀ g, g ≠ u → IsHub G (level levels) u g →
        ∃ d, assoc xs₂ ds₂ g = some d ∧ IsDist G u g d := by
      intro g hgu hhub
      obtain ⟨x, e, b, hfirst, hxg, hug⟩ := hlaunch g hgu hhub
      obtain ⟨he, rfl⟩ := firstTo_some hfirst
      obtain ⟨_, hs, es, ds, hrow, _⟩ := hL _ (hS e he)
      have hon := OnShortest.of_walk (hwalk u e he) hxg.1 hug
      have hlabel := (hcan _ hs es ds (hS e he) hrow g b).mpr ⟨hhub.of_onShortest hon, hxg⟩
      obtain ⟨d, hd, hle⟩ := hcov _ e hs es ds hfirst hrow g b hlabel
      have hge := hug.2 d (hf₂.walk (hwalk u) hd)
      obtain rfl : d = E.distOf e + b := le_antisymm hle hge
      exact ⟨_, hd, hug⟩
    exact canonical_of_removed hR hf₂ hexact hsub
      (hkept _ (decides_isHub hR hwalk hcan hf₂ hexact))
  · intro L' t hagree hsized hready
    obtain ⟨t₀, hstart, ht₀⟩ := startTable_spec hready hsmall
    obtain ⟨t₁, hloop₁, ht₁⟩ := hrun₁ t₀ ht₀
    obtain ⟨t₂, hloop₂, ht₂⟩ := hrun₂ L' t₁ hagree ht₁
    obtain ⟨t₃, hloop₃, ht₃⟩ := hrun₃ L' t₂ hagree ht₂
    obtain ⟨rest, hrow, hcount, _⟩ := hU.all.node u h0 h1
    refine ⟨t₃, ?_, ht₃.ready⟩
    unfold calcLabels addLabels
    simp only [hstart, ok_bind, DynamicGrid.getAllEdgeCount, hcount, DynamicGrid.getAllEdges, hrow,
      hU.rd_level h0 h1, slice_append, hloop₁, hloop₂, hloop₃, OrderedIntSet.toArray_spec ht₃.ids,
      OrderedIntSet.toArray_spec ht₃.dist, OrderedIntSet.toArray_spec ht₃.edge,
      Labels.addLabels_eq hsized h0 h1, pure_eq_ok]

end HLDijkstra

end SeaRouter
