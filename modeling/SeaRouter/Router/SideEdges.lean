import SeaRouter.Router.AddEdges

/-!
# The edges of a side

After the selection a request collects the edges between each of its two nodes and the
hub.  A node with labels follows its labels.  A node without labels follows its
temporary labels back to itself, which is only possible if the second loop of
`calcTempLabels` has not overwritten an entry on the way.

* `Tidy` is a condition on the stored edges for this: no label is a shorter way to a
  node with labels than they are.
* `Collected.kept` says that the entries of the search are then all left.
* `side_edges` puts the cases of `labelEdges` and `tempEdges` together.
* `route_returns` is the whole request: it ends without an exception, and with the
  distance of the graph.
-/

namespace SeaRouter

open Java WGraph

namespace HubLRouter

open TempLabels

variable {G : Int → Int → Int → Prop} {n : Nat} {H : HubLEdges} {N : HubLNodes}
  {ups : Int → List Int} {ent : Int → List (Int × Int × Int)} {T₁ T : Int → Option Entry}
  {ps : List (Int × Int)} {x : Int}

/-- The data of a request: `CutData` for the selection, and edges that can be
unpacked for the path. -/
structure RouteData (G : Int → Int → Int → Prop) (n : Nat) (H : HubLEdges) (N : HubLNodes)
    (ups : Int → List Int) (ent : Int → List (Int × Int × Int)) : Prop where
  cut : CutData G n H N ups ent
  labels : LabelData G n H N ent
  leads : ∀ u e, ¬ Labelled N u → e ∈ ups u → ∃ v l, Leads H G e u v l

/-- The stored edges are as short a way from `x` to a node with labels as there is. -/
def Tidy (G : Int → Int → Int → Prop) (H : HubLEdges) (N : HubLNodes) (ups : Int → List Int)
    (x : Int) : Prop :=
  ∀ w a, Labelled N w → IsDist (Stored H N ups) x w a → IsDist G x w a

/-- The hubs of a node are not on a lower level. -/
theorem LabelData.level_le (h : LabelData G n H N ent) :
    ∀ (m : Nat) (B v g e d : Int), (∀ u, levelOf N u ≤ B) → (B - levelOf N v).toNat = m →
      (g, e, d) ∈ ent v → levelOf N v ≤ levelOf N g := by
  intro m
  induction m using Nat.strong_induction_on with
  | _ m ih =>
    intro B v g e d hB hm hmem
    by_cases hgv : g = v
    · rw [hgv]
    · obtain ⟨y, l, e', _, hlevel, hmem'⟩ := h.next v g e d hmem hgv
      have hy := hB y
      have := ih (B - levelOf N y).toNat (by omega) B y g e' (d - l) hB rfl hmem'
      omega

/-- So all of them have labels. -/
theorem RouteData.labelled_hub (hd : RouteData G n H N ups ent) {v g e d : Int}
    (hv : Labelled N v) (hmem : (g, e, d) ∈ ent v) : Labelled N g := by
  obtain ⟨B, hB⟩ := CutData.exists_level_le N
  have hle := hd.labels.level_le _ B v g e d hB rfl hmem
  exact le_trans hv hle

namespace Collected

/-- No entry of the search is overwritten. -/
theorem kept (hd : RouteData G n H N ups ent) (hc : Collected H N ups n ent x T₁ T ps)
    (htidy : Tidy G H N ups x) {v : Int} {en₁ : Entry} (hen₁ : T₁ v = some en₁) :
    T v = some en₁ := by
  obtain ⟨L, hexp⟩ := hc.explored
  obtain ⟨en, hen, _⟩ := hc.folding.keep v en₁ hen₁
  rcases hc.folding.entry v en hen with hsame | ⟨i, w, p, e, d, hf⟩
  · rw [hen, ← hsame, hen₁]
  · exfalso
    have hv : Labelled N v :=
      hd.labelled_hub (hc.folding.taken i w p hf.taken).labelled hf.label
    have hdist := htidy v en₁.dist hv (hexp.dist v en₁ hen₁)
    have hle := hdist.2 _ (hc.walk hd.cut hen)
    have hlt := hf.better en₁ hen₁
    have hdist' : en.dist = p + d := congrArg Entry.dist hf.entry
    omega

/-- The way that the search found back to `x`; its edges are stored ones. -/
theorem exists_leaves (hd : RouteData G n H N ups ent) (hc : Collected H N ups n ent x T₁ T ps)
    (htidy : Tidy G H N ups x) {t : TempLabels} {xs : List Int} (hs : Sealed t T xs) :
    ∀ (m : Nat) (v : Int) (en₁ : Entry), en₁.dist.toNat = m → T₁ v = some en₁ →
      ∃ l, Leaves H t x v l ∧ ∀ e ∈ l, ∃ u, ¬ Labelled N u ∧ e ∈ ups u := by
  obtain ⟨L, hexp⟩ := hc.explored
  intro m
  -- the entries on the way back have smaller distances
  induction m using Nat.strong_induction_on with
  | _ m ih =>
    intro v en₁ hm hen₁
    by_cases hvx : v = x
    · rw [hvx]
      exact ⟨[], Leaves.stop, by simp⟩
    · obtain ⟨en', l', hprev, hlab, he, hdest, hdist, hsum⟩ := hexp.tree v en₁ hen₁ hvx
      have hpos := hd.cut.stored_pos _ _ _ ⟨hlab, en₁.edge, he, hdest, hdist⟩
      have hnn := (hexp.dist _ en' hprev).nonneg hd.cut.stored_nonneg
      obtain ⟨l, hl, hall⟩ := ih en'.dist.toNat (by omega) en₁.addInfo en' rfl hprev
      obtain ⟨idx, hidx, hedge, hinfo⟩ := hs.entry_of (hc.kept hd htidy hen₁)
      refine ⟨l ++ [en₁.edge], Leaves.step hvx hidx hedge hinfo hdest hl, ?_⟩
      intro e hmem
      rcases List.mem_append.mp hmem with hold | hnew
      · exact hall e hold
      · rw [List.mem_singleton] at hnew
        exact ⟨en₁.addInfo, hlab, hnew ▸ he⟩

end Collected

/-! ## The two kinds of sides -/

/-- The edges between the node of a side and the hub, which is the label at `idx` of
that side. -/
def sideEdges (fuel : Nat) (H : HubLEdges) (N : HubLNodes) (labels : TempLabels)
    (edgeStack : IntStack) (nodeId highestLvlNode idx : Int) : Run IntStack :=
  if Labelled N nodeId then labelEdges fuel H N edgeStack nodeId highestLvlNode idx
  else tempEdges fuel H N labels edgeStack nodeId highestLvlNode idx

/-- Stored edges can be unpacked. -/
theorem RouteData.exists_unpacks (hd : RouteData G n H N ups ent) {l : List Int}
    (h : ∀ e ∈ l, ∃ u, ¬ Labelled N u ∧ e ∈ ups u) : ∃ ns F, Unpacks H l ns F := by
  apply HubLRouter.exists_unpacks
  intro e he
  obtain ⟨u, hu, hmem⟩ := h e he
  obtain ⟨v, l', hleads⟩ := hd.leads u e hu hmem
  obtain ⟨ls, k, hexp, _⟩ := hleads.path
  exact ⟨ls, k, hexp⟩

theorem Unpacks.append {es es' ns ns' : List Int} {F F' : Nat} (h : Unpacks H es ns F)
    (h' : Unpacks H es' ns' F') : ∃ F'', Unpacks H (es ++ es') (ns ++ ns') F'' := by
  induction h with
  | nil => exact ⟨F', h'⟩
  | cons hexp _ ih =>
    obtain ⟨F'', hu⟩ := ih
    have hcons := Unpacks.cons hexp hu
    rw [← List.append_assoc] at hcons
    exact ⟨_, hcons⟩

/-- What a side collects without labels of its own. -/
theorem temp_edges (hd : RouteData G n H N ups ent) (hc : Collected H N ups n ent x T₁ T ps)
    (htidy : Tidy G H N ups x) {t : TempLabels} {xs : List Int} (hs : Sealed t T xs) {i : Nat}
    {g a : Int} (hi : (tempHubs T xs)[i]? = some (g, a)) {st : IntStack} (hst : st.Holds []) :
    ∃ es ns F B st', Unpacks H es ns F ∧ st'.Holds es ∧
      ∀ fuel, B ≤ fuel → tempEdges fuel H N t st x g i = .ok st' := by
  obtain ⟨L, hexp⟩ := hc.explored
  obtain ⟨en, hen, _, hedge, hinfo⟩ := hs.entry_at hi
  -- a climb to `x`, which ends within the number of its edges
  have hclimb : ∀ v en₁, T₁ v = some en₁ → ∃ es ns F st', Unpacks H es ns F ∧
      st'.Holds es ∧ ∀ fuel, F ≤ fuel → addEdges fuel t st v x = .ok st' := by
    intro v en₁ hen₁
    obtain ⟨l, hl, hall⟩ := hc.exists_leaves hd htidy hs _ v en₁ rfl hen₁
    obtain ⟨st', hst', hrun⟩ := addEdges_spec hl hst
    rw [List.nil_append] at hst'
    obtain ⟨ns, F, hu⟩ := hd.exists_unpacks (l := l.reverse) fun e he =>
      hall e (List.mem_reverse.mp he)
    refine ⟨l.reverse, ns, F, st', hu, hst', ?_⟩
    intro fuel hfuel
    have hlen := hu.length_le
    rw [List.length_reverse] at hlen
    exact hrun fuel (by omega)
  cases hT₁ : T₁ g with
  | some en₁ =>
    obtain rfl : en = en₁ := Option.some.inj (hen.symm.trans (hc.kept hd htidy hT₁))
    by_cases hgx : g = x
    · -- the hub is the node itself
      subst hgx
      obtain rfl : en = ⟨0, -1, -1⟩ := Option.some.inj (hT₁.symm.trans hexp.start)
      refine ⟨[], [], 0, 0, st, Unpacks.nil, hst, ?_⟩
      intro fuel _
      rw [tempEdges, hinfo, ok_bind]
      rfl
    · obtain ⟨en', _, hprev, _⟩ := hexp.tree g en hT₁ hgx
      obtain ⟨hnode, _⟩ := hexp.node _ en' hprev
      obtain ⟨es, ns, F, st', hu, hst', hrun⟩ := hclimb en.addInfo en' hprev
      refine ⟨es, ns, F, F, st', hu, hst', ?_⟩
      intro fuel hfuel
      rw [tempEdges, hinfo, ok_bind, if_neg (by omega), if_pos (by omega), hrun fuel hfuel]
  | none =>
    rcases hc.folding.entry g en hen with hsame | ⟨j, w, p, e, d, hf⟩
    · rw [hT₁] at hsame
      simp at hsame
    · obtain ⟨en₁, hen₁, _⟩ := (hc.folding.taken j w p hf.taken).found
      have hgw : g ≠ w := by
        rintro rfl
        rw [hT₁] at hen₁
        simp at hen₁
      obtain ⟨hw0, _⟩ := hexp.node w en₁ hen₁
      obtain ⟨y, l, e', hleads, _, hlabel'⟩ := hd.labels.next w g e d hf.label hgw
      obtain ⟨es, ns, F, st₁, hu, hst₁, hrun⟩ := hclimb w en₁ hen₁
      obtain ⟨es', ns', F', hroute, hget⟩ := hd.labels.getEdges_spec hlabel'
      obtain ⟨st₂, hpush, hst₂⟩ := IntStack.push_spec hst₁ e
      obtain ⟨st₃, hst₃, hlast⟩ := hget st₂ _ hst₂
      obtain ⟨ls, k, hexpand, _⟩ := hleads.path
      obtain ⟨F'', hu'⟩ := hu.append (Unpacks.cons hexpand hroute.unpacks)
      have hinfo' : t.addInfo.get i = .ok (w * (-1) - 2) := by rw [hinfo, hf.entry]
      have hedge' : t.edge.get i = .ok e := by rw [hedge, hf.entry]
      refine ⟨es ++ e :: es', _, F'', F + F', st₃, hu', ?_, ?_⟩
      · rw [List.append_cons]
        exact hst₃
      · intro fuel hfuel
        rw [tempEdges, hinfo', ok_bind, if_pos (by omega),
          show (w * (-1) - 2 + 2) * (-1) = w by ring, hrun fuel (by omega), ok_bind, hedge',
          ok_bind, hpush, ok_bind, hleads.dest, ok_bind, hlast fuel (by omega)]

/-- The edges that a side collects can be unpacked, and those of a node with labels
lead to the hub. -/
theorem side_edges (hd : RouteData G n H N ups ent) (h0 : 0 ≤ x) (h1 : x < n)
    (htidy : ¬ Labelled N x → Tidy G H N ups x) {t : TempLabels} {l : List (Int × Int)} {off : Int}
    (hside : SideAt H N ups n ent t x l off) {i : Nat} {g a : Int} (hi : l[i]? = some (g, a))
    {st : IntStack} (hst : st.Holds []) :
    ∃ es ns F B st', Unpacks H es ns F ∧ (Labelled N x → Route H G es x g a ns F) ∧
      st'.Holds es ∧ ∀ fuel, B ≤ fuel → sideEdges fuel H N t st x g (off + i) = .ok st' := by
  cases hside with
  | stored hx =>
    obtain ⟨k, rfl⟩ : ∃ k : Nat, x = k := ⟨x.toNat, by omega⟩
    obtain ⟨e, he⟩ := hubs_get hi
    obtain ⟨es, ns, F, hroute, hrun⟩ := hd.labels.labelEdges_spec (v := k) (by omega) he
    obtain ⟨st', hst', hedges⟩ := hrun st hst
    refine ⟨es, ns, F, F, st', hroute.unpacks, fun _ => hroute, hst', ?_⟩
    intro fuel hfuel
    rw [sideEdges, if_pos hx]
    exact hedges fuel hfuel
  | temp hx hc hs =>
    obtain ⟨es, ns, F, B, st', hu, hst', hrun⟩ := temp_edges hd hc (htidy hx) hs hi hst
    refine ⟨es, ns, F, B, st', hu, fun hlab => absurd hlab hx, hst', ?_⟩
    intro fuel hfuel
    rw [sideEdges, if_neg hx, zero_add]
    exact hrun fuel hfuel

/-! ## The whole request -/

/-- Behind the selection come the edges of the two sides and the path over them. -/
theorem extract_of_sideEdges (hd : CutData G n H N ups ent) {s t : Int} (hs : 0 ≤ s ∧ s < n)
    (ht : 0 ≤ t ∧ t < n) {r : HubLRouter} {la lb : List (Int × Int)} {offA offB : Int}
    {best : Selection} {i j : Nat} {g a b : Int} (hp : Picks N s t la lb offA offB best i j g a b)
    {left right : IntStack} {fuel : Nat}
    (hleft : sideEdges fuel H N r.left r.edgesLeft s g (offA + i) = .ok left)
    (hright : sideEdges fuel H N r.right r.edgesRight t g (offB + j) = .ok right) :
    extract fuel H N r s t best =
      finish fuel H { r with edgesRight := right, edgesLeft := left } s t (a + b) := by
  have hidx := hp.idx
  rw [sideEdges] at hleft hright
  rw [← hp.dist]
  by_cases hls : Labelled N s <;> by_cases hlt : Labelled N t
  · rw [if_neg (fun hc => hc.1 hls)] at hidx
    rw [if_pos hls] at hleft
    rw [if_pos hlt] at hright
    simp only [extract, hd.nodeHasLabels hs.1 hs.2, hd.nodeHasLabels ht.1 ht.2, ok_bind, hls, hlt,
      decide_true, Bool.and_self, if_true, hp.hub, hidx.1, hidx.2, hleft, hright]
  · rw [if_neg (fun hc => hc.1 hls)] at hidx
    rw [if_pos hls] at hleft
    rw [if_neg hlt] at hright
    simp only [extract, hd.nodeHasLabels hs.1 hs.2, hd.nodeHasLabels ht.1 ht.2, ok_bind, hls, hlt,
      decide_true, decide_false, Bool.and_false, Bool.not_true, Bool.not_false, Bool.and_true,
      Bool.false_eq_true, if_false, if_true, hp.hub, hidx.1, hidx.2, hleft, hright]
  · rw [if_pos ⟨hls, hlt⟩] at hidx
    rw [if_neg hls] at hleft
    rw [if_pos hlt] at hright
    simp only [extract, hd.nodeHasLabels hs.1 hs.2, hd.nodeHasLabels ht.1 ht.2, ok_bind, hls, hlt,
      decide_true, decide_false, Bool.and_true, Bool.not_true, Bool.and_false, Bool.false_eq_true,
      if_false, hp.hub, hidx.1, hidx.2, hleft, hright]
  · rw [if_neg (fun hc => hlt hc.2)] at hidx
    rw [if_neg hls] at hleft
    rw [if_neg hlt] at hright
    simp only [extract, hd.nodeHasLabels hs.1 hs.2, hd.nodeHasLabels ht.1 ht.2, ok_bind, hls, hlt,
      decide_false, Bool.not_false, Bool.and_self, Bool.false_eq_true, if_false, if_true, hp.hub,
      hidx.1, hidx.2, hleft, hright]

/-- What is right about the result of every request: whether there is a route, and
its length. -/
def Measures (G : Int → Int → Int → Prop) (s t : Int) (result : RoutingResult) : Prop :=
  (result.routeFound = false ↔ ¬ ∃ L, Walk G s t L) ∧
    (result.routeFound = true → IsDist G s t result.overallDistance)

theorem Answers.measures {s t : Int} {result : RoutingResult} (h : Answers G s t result) :
    Measures G s t result :=
  ⟨h.1, fun hfound => (h.2 hfound).1⟩

theorem measures_found {s t d : Int} {path : List Int} (hd : IsDist G s t d) :
    Measures G s t (RoutingResult.found path d) :=
  ⟨by simpa [RoutingResult.found] using ⟨d, hd.1⟩, fun _ => hd⟩

/-- A request between any two nodes whose stored edges are tidy ends without an
exception and with the right distance; between two nodes with labels, it also returns
a shortest path. -/
theorem route_returns (hd : RouteData G n H N ups ent) {s t : Int} (hs : 0 ≤ s ∧ s < n)
    (ht : 0 ≤ t ∧ t < n) (htidyS : ¬ Labelled N s → Tidy G H N ups s)
    (htidyT : ¬ Labelled N t → Tidy G H N ups t) {r : HubLRouter} (hr : Usable r) :
    ∃ F result, Measures G s t result ∧ (Labelled N s → Labelled N t → Answers G s t result) ∧
      ∀ fuel, F ≤ fuel → ∃ r', route fuel H N r s t = .ok (result, r') := by
  obtain ⟨F, best, r', la, lb, offA, offB, hsel, hstacks, hsideA, hsideB, hselects⟩ :=
    select_spec hd.cut hs ht hr
  rcases hselects with ⟨rfl, hno⟩ | ⟨i, j, g, a, b, hg, hdist, hp⟩
  · refine ⟨F, RoutingResult.notFound, (answers_notFound hno).measures,
      fun _ _ => answers_notFound hno, ?_⟩
    intro fuel hfuel
    refine ⟨r', ?_⟩
    rw [route_eq, hsel fuel hfuel, ok_bind]
    rfl
  · obtain ⟨es, ns, k, B, left, hu, hroute, hleft, hrun⟩ :=
      side_edges hd hs.1 hs.2 htidyS hsideA hp.left hstacks.left_
    obtain ⟨es', ns', k', B', right, hu', hroute', hright, hrun'⟩ :=
      side_edges hd ht.1 ht.2 htidyT hsideB hp.right hstacks.right_
    obtain ⟨B'', hfinish⟩ := finish_eq s t hu hu' (a + b)
    refine ⟨F + B + B' + B'',
      RoutingResult.found ((s :: ns).dropLast ++ (ns'.reverse ++ [t])) (a + b),
      measures_found hdist, ?_, ?_⟩
    · intro hls hlt
      have hback := (hroute' hlt).isPath.reverse hd.cut.symm
      rw [List.reverse_cons] at hback
      exact answers_found hdist ((hroute hls).isPath.append hback)
    · intro fuel hfuel
      obtain ⟨r'', _, hr''⟩ := hfinish { r' with edgesRight := right, edgesLeft := left }
        ⟨hleft, hright, hstacks.calc_, hstacks.result_⟩ fuel (by omega)
      refine ⟨r'', ?_⟩
      rw [route_eq, hsel fuel (by omega), ok_bind]
      dsimp only
      rw [hp.hub, if_neg (by omega), extract_of_sideEdges hd.cut hs ht hp (hrun fuel (by omega))
        (hrun' fuel (by omega)), hr'']

end HubLRouter

end SeaRouter
