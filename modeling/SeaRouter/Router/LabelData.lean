import SeaRouter.Router.Merge
import SeaRouter.Router.RoutePath

/-!
# Routing between two nodes with labels

`LabelData` is a set of hub labels as the router reads it: `ent v` are the
labels of the node `v`, triples of a hub, the first edge towards it and the
distance.  They are sorted, exact and cover every pair of connected nodes, and
the edge of a label leads to a node of a higher level that has the same hub.

`route2Lbl_spec` says that `route2Lbl` then returns a shortest path of the graph.
-/

namespace SeaRouter

open Java WGraph

namespace HubLRouter

/-- The level of a node. -/
def levelOf (N : HubLNodes) (v : Int) : Int := HLDijkstra.level N.levels v

/-- The node `v` has labels. -/
def Labelled (N : HubLNodes) (v : Int) : Prop := N.hlLevel ≤ levelOf N v

instance (N : HubLNodes) (v : Int) : Decidable (Labelled N v) :=
  inferInstanceAs (Decidable (N.hlLevel ≤ levelOf N v))

/-- The labels of all nodes, in order. -/
def labelTable (n : Nat) (ent : Int → List (Int × Int × Int)) : List (List (Int × Int × Int)) :=
  (List.range n).map fun v : Nat => ent (v : Int)

/-- The three arrays hold the labels `ent` of the `n` nodes, and one more element
behind them. -/
structure LabelArrays (n : Nat) (N : HubLNodes) (ent : Int → List (Int × Int × Int)) : Prop where
  levels : N.levels.length = n
  node : IsRows N.labelOffset N.labelNode ((labelTable n ent).map (List.map fun e => e.1))
  edge : IsRows N.labelOffset N.labelEdge ((labelTable n ent).map (List.map fun e => e.2.1))
  dist : IsRows N.labelOffset N.labelDist ((labelTable n ent).map (List.map fun e => e.2.2))
  more : (labelTable n ent).flatten.length < N.labelNode.length

/-- The hub labels of the undirected graph `G`. -/
structure LabelData (G : Int → Int → Int → Prop) (n : Nat) (H : HubLEdges) (N : HubLNodes)
    (ent : Int → List (Int × Int × Int)) : Prop where
  arrays : LabelArrays n N ent
  symm : ∀ u v l, G u v l → G v u l
  nonneg : ∀ u v l, G u v l → 0 ≤ l
  bound : ∀ u v d, IsDist G u v d → d < MAX_VALUE
  sorted : ∀ v, ((ent v).map fun e => e.1).Pairwise (· < ·)
  hub : ∀ v h e d, (h, e, d) ∈ ent v → 0 ≤ h ∧ h < n
  exact : ∀ v h e d, (h, e, d) ∈ ent v → IsDist G v h d
  cover : ∀ s t d, Labelled N s → Labelled N t → s ≠ t → IsDist G s t d →
    ∃ h e a e' b, (h, e, a) ∈ ent s ∧ (h, e', b) ∈ ent t ∧ a + b = d
  next : ∀ v h e d, (h, e, d) ∈ ent v → h ≠ v → ∃ x l e', Leads H G e v x l ∧
    levelOf N v < levelOf N x ∧ (h, e', d - l) ∈ ent x
  node : ∀ v, ent v ≠ [] → 0 ≤ v ∧ v < n

variable {G : Int → Int → Int → Prop} {n : Nat} {H : HubLEdges} {N : HubLNodes}
  {ent : Int → List (Int × Int × Int)}

/-! ## Reading the labels of a node -/

theorem labelTable_get (f : Int × Int × Int → Int) {v : Nat} (hv : v < n) :
    ((labelTable n ent).map (List.map f))[v]? = some ((ent (v : Int)).map f) := by
  rw [List.getElem?_map, labelTable, List.getElem?_map, List.getElem?_range hv]
  rfl

/-- One column of the labels of a node. -/
theorem rd_column {offset data : List Int} {f : Int × Int × Int → Int}
    (h : IsRows offset data ((labelTable n ent).map (List.map f))) {v : Nat} (hv : v < n)
    {i : Nat} {x : Int × Int × Int} (hx : (ent (v : Int))[i]? = some x) :
    rd data ((rowStart (labelTable n ent) v : Int) + i) = .ok (f x) := by
  obtain ⟨pre, post, hdata, hpre, _, _⟩ := h.row (labelTable_get f hv)
  rw [rowStart_map] at hpre
  rw [← Nat.cast_add, ← hpre, hdata, List.append_assoc]
  apply rd_of_getElem?
  obtain ⟨hi, _⟩ := List.getElem?_eq_some_iff.mp hx
  rw [List.getElem?_append_right (by omega), Nat.add_sub_cancel_left,
    List.getElem?_append_left (by rw [List.length_map]; exact hi), List.getElem?_map, hx]
  rfl

/-- The offsets of a node. -/
theorem LabelArrays.offset (h : LabelArrays n N ent) {v : Nat} (hv : v < n) :
    N.getLabelOffset v = .ok (rowStart (labelTable n ent) v : Int) ∧
      N.getLabelOffset ((v : Int) + 1) =
        .ok ((rowStart (labelTable n ent) v : Int) + (ent (v : Int)).length) := by
  obtain ⟨pre, post, _, hpre, h1, h2⟩ := h.node.row (labelTable_get (fun e => e.1) hv)
  rw [rowStart_map] at hpre
  rw [hpre] at h1 h2
  refine ⟨h1, ?_⟩
  rw [HubLNodes.getLabelOffset, h2, List.length_map]
  push_cast
  rfl

/-- The labels of a node as one side of the merge. -/
def hubs (ent : Int → List (Int × Int × Int)) (v : Int) : List (Int × Int) :=
  (ent v).map fun e => (e.1, e.2.2)

theorem hubs_get {v : Int} {i : Nat} {h d : Int} (hi : (hubs ent v)[i]? = some (h, d)) :
    ∃ e, (ent v)[i]? = some (h, e, d) := by
  rw [hubs, List.getElem?_map, Option.map_eq_some_iff] at hi
  obtain ⟨⟨h', e, d'⟩, hget, heq⟩ := hi
  simp only [Prod.mk.injEq] at heq
  exact ⟨e, by rw [hget, heq.1, heq.2]⟩

theorem mem_hubs {v h d : Int} : (h, d) ∈ hubs ent v ↔ ∃ e, (h, e, d) ∈ ent v := by
  rw [hubs, List.mem_map]
  constructor
  · rintro ⟨⟨h', e, d'⟩, hmem, heq⟩
    simp only [Prod.mk.injEq] at heq
    exact ⟨e, by rw [← heq.1, ← heq.2]; exact hmem⟩
  · rintro ⟨e, hmem⟩
    exact ⟨_, hmem, rfl⟩

theorem LabelArrays.reads (h : LabelArrays n N ent) {v : Nat} (hv : v < n) :
    Reads (storedSide N) (rowStart (labelTable n ent) v : Int) (hubs ent (v : Int)) := by
  constructor
  · intro i x d hi
    obtain ⟨e, he⟩ := hubs_get hi
    exact rd_column h.node hv he
  · intro i x d hi
    obtain ⟨e, he⟩ := hubs_get hi
    exact rd_column h.dist hv he
  · -- behind the labels of a node are those of the next one, or the last element
    have hlen : (hubs ent (v : Int)).length = (ent (v : Int)).length := by simp [hubs]
    have hget : (labelTable n ent)[v]? = some (ent (v : Int)) := by
      rw [labelTable, List.getElem?_map, List.getElem?_range hv]
      rfl
    have hle : rowStart (labelTable n ent) (v + 1) ≤ (labelTable n ent).flatten.length := by
      rw [← rowStart_length]
      exact rowStart_mono _ (by simp [labelTable]; omega)
    rw [rowStart_succ hget] at hle
    have hmore := h.more
    rw [hlen]
    obtain ⟨x, hx⟩ := exists_rd (a := N.labelNode)
      (i := (rowStart (labelTable n ent) v : Int) + (ent (v : Int)).length) (by omega) (by omega)
    exact ⟨x, hx⟩

theorem LabelData.hubs_sorted (h : LabelData G n H N ent) (v : Int) :
    ((hubs ent v).map Prod.fst).Pairwise (· < ·) := by
  have := h.sorted v
  rw [hubs, List.map_map]
  exact this

/-! ## The edges towards the hub -/

/-- The search for a hub among the labels of a node. -/
theorem LabelData.search (h : LabelData G n H N ent) {v : Nat} (hv : v < n) {x e d : Int}
    (hmem : (x, e, d) ∈ ent (v : Int)) :
    ∃ r : Nat, binarySearchRange N.labelNode (rowStart (labelTable n ent) v : Int)
        ((rowStart (labelTable n ent) v : Int) + (ent (v : Int)).length) x = .ok (r : Int) ∧
      N.getLabelEdge r = .ok e := by
  obtain ⟨pre, post, hdata, hpre, _, _⟩ := h.arrays.node.row (labelTable_get (fun e => e.1) hv)
  rw [rowStart_map] at hpre
  have hslice : (N.labelNode.take (pre.length + (ent (v : Int)).length)).drop pre.length =
      (ent (v : Int)).map fun e => e.1 := by
    rw [hdata, List.take_left' (by simp), List.drop_left' rfl]
  have hle : pre.length + (ent (v : Int)).length ≤ N.labelNode.length := by
    rw [hdata]
    simp
  have hsorted : ((N.labelNode.take (pre.length + (ent (v : Int)).length)).drop
      pre.length).Pairwise (· ≤ ·) := by
    rw [hslice]
    exact (h.sorted v).imp le_of_lt
  have hkey : x ∈ (N.labelNode.take (pre.length + (ent (v : Int)).length)).drop pre.length := by
    rw [hslice]
    exact List.mem_map.mpr ⟨_, hmem, rfl⟩
  obtain ⟨r, hr, hlo, hhi, hget⟩ := binarySearchRange_mem (Nat.le_add_right _ _) hle hsorted hkey
  obtain ⟨i, rfl⟩ : ∃ i, r = pre.length + i := ⟨r - pre.length, by omega⟩
  have hi : i < (ent (v : Int)).length := by omega
  -- the node stands only once in the labels
  have hentry : (ent (v : Int))[i]? = some (x, e, d) := by
    have hnode : (ent (v : Int))[i].1 = x := by
      rw [hdata, List.append_assoc, List.getElem?_append_right (by omega),
        Nat.add_sub_cancel_left, List.getElem?_append_left (by simpa using hi),
        List.getElem?_map, List.getElem?_eq_getElem hi] at hget
      simpa using hget
    have hnodup : ((ent (v : Int)).map fun e => e.1).Nodup := (h.sorted v).imp ne_of_lt
    rw [List.getElem?_eq_getElem hi, List.inj_on_of_nodup_map hnodup (List.getElem_mem hi) hmem
      hnode]
  refine ⟨pre.length + i, ?_, ?_⟩
  · rw [← hpre, ← hr]
    push_cast
    rfl
  · have := rd_column h.arrays.edge hv hentry
    rw [HubLNodes.getLabelEdge, Nat.cast_add, hpre]
    exact this

/-- The loop of `getEdges` follows the labels up to the hub. -/
theorem LabelData.getEdges_loop (h : LabelData G n H N ent) {top : Int}
    (htop : ∀ v : Int, 0 ≤ v → v < n → levelOf N v < top) {x : Int} :
    ∀ (m : Nat) (v e d : Int), (top - levelOf N v).toNat = m → (x, e, d) ∈ ent v →
      ∃ es ns F, Route H G es v x d ns F ∧ es.length ≤ m ∧
        ∀ st xs, IntStack.Holds st xs → ∃ st', st'.Holds (xs ++ es) ∧
          ∀ fuel, es.length ≤ fuel →
            whileLoop (fun s : Int × IntStack => return decide (s.1 ≠ x)) (getEdgesStep H N x) fuel
              (v, st) = .ok (x, st') := by
  intro m
  induction m using Nat.strong_induction_on with
  | _ m ih =>
    intro v e d hm hmem
    obtain ⟨hv0, hv1⟩ := h.node v (List.ne_nil_of_mem hmem)
    by_cases hvx : v = x
    · subst hvx
      have hd : d = 0 := (h.exact v v e d hmem).unique
        (isDist_self h.nonneg v)
      subst hd
      refine ⟨[], [], 0, Route.nil v, by simp, ?_⟩
      intro st xs hst
      refine ⟨st, by rw [List.append_nil]; exact hst, ?_⟩
      intro fuel _
      exact whileLoop_of_false (by simp) fuel
    · obtain ⟨y, l, e', hleads, hlevel, hmem'⟩ := h.next v x e d hmem (Ne.symm hvx)
      obtain ⟨hy0, hy1⟩ := h.node y (List.ne_nil_of_mem hmem')
      have h1 := htop v hv0 hv1
      have h2 := htop y hy0 hy1
      obtain ⟨es, ns, F, hroute, hlen, hrun⟩ := ih (top - levelOf N y).toNat (by omega) y e'
        (d - l) rfl hmem'
      obtain ⟨ns', F', hroute'⟩ := hleads.route hroute
      rw [add_sub_cancel] at hroute'
      refine ⟨e :: es, ns', F', hroute', by rw [List.length_cons]; omega, ?_⟩
      intro st xs hst
      obtain ⟨st₁, hpush, hst₁⟩ := IntStack.push_spec hst e
      obtain ⟨st', hst', hloop⟩ := hrun st₁ (xs ++ [e]) hst₁
      refine ⟨st', by rw [List.append_cons]; exact hst', ?_⟩
      intro fuel hfuel
      obtain ⟨fuel, rfl⟩ : ∃ k, fuel = k + 1 := ⟨fuel - 1, by rw [List.length_cons] at hfuel; omega⟩
      obtain ⟨v', rfl⟩ : ∃ k : Nat, v = k := ⟨v.toNat, by omega⟩
      obtain ⟨hoff, hoff'⟩ := h.arrays.offset (v := v') (by omega)
      obtain ⟨r, hsearch, hedge⟩ := h.search (v := v') (by omega) hmem
      have hstep : getEdgesStep H N x ((v' : Int), st) = .ok (y, st₁) := by
        simp only [getEdgesStep, hoff, hoff', hsearch, hedge, hleads.dest, hpush, ok_bind,
          pure_eq_ok]
      rw [whileLoop_of_true (by simpa using hvx) hstep]
      exact hloop fuel (by rw [List.length_cons] at hfuel; omega)

/-- The levels of the nodes are bounded. -/
theorem exists_top (n : Nat) (N : HubLNodes) :
    ∃ top : Int, ∀ v : Int, 0 ≤ v → v < n → levelOf N v < top := by
  refine ⟨((List.range n).map fun v : Nat => (levelOf N (v : Int)).natAbs).sum + 1, ?_⟩
  intro v h0 h1
  have hmem : (levelOf N v).natAbs ∈ (List.range n).map fun v : Nat => (levelOf N (v : Int)).natAbs :=
    List.mem_map.mpr ⟨v.toNat, List.mem_range.mpr (by omega), by rw [Int.toNat_of_nonneg h0]⟩
  have := List.single_le_sum (by simp) _ hmem
  omega

/-- `getEdges` from a node that has the hub among its labels. -/
theorem LabelData.getEdges_spec (h : LabelData G n H N ent) {v x e d : Int}
    (hmem : (x, e, d) ∈ ent v) :
    ∃ es ns F, Route H G es v x d ns F ∧ ∀ st xs, IntStack.Holds st xs →
      ∃ st', st'.Holds (xs ++ es) ∧ ∀ fuel, F ≤ fuel → getEdges fuel H N v x st = .ok st' := by
  obtain ⟨top, htop⟩ := exists_top n N
  obtain ⟨es, ns, F, hroute, _, hrun⟩ := h.getEdges_loop htop _ v e d rfl hmem
  refine ⟨es, ns, F, hroute, ?_⟩
  intro st xs hst
  obtain ⟨st', hst', hloop⟩ := hrun st xs hst
  refine ⟨st', hst', ?_⟩
  intro fuel hfuel
  have hlen := hroute.unpacks.length_le
  rw [getEdges, hloop fuel (by omega), ok_bind]
  rfl

/-- The edges from a node with labels to the hub at index `i` of its labels. -/
theorem LabelData.labelEdges_spec (h : LabelData G n H N ent) {v : Nat} (hv : v < n) {i : Nat}
    {x e d : Int} (hi : (ent (v : Int))[i]? = some (x, e, d)) :
    ∃ es ns F, Route H G es v x d ns F ∧ ∀ st, IntStack.Holds st [] →
      ∃ st', st'.Holds es ∧ ∀ fuel, F ≤ fuel → labelEdges fuel H N st v x
        ((rowStart (labelTable n ent) v : Int) + i) = .ok st' := by
  have hmem : (x, e, d) ∈ ent (v : Int) := List.mem_of_getElem? hi
  by_cases hvx : (v : Int) = x
  · subst hvx
    have hd : d = 0 := (h.exact v v e d hmem).unique
      (isDist_self h.nonneg v)
    subst hd
    refine ⟨[], [], 0, Route.nil v, ?_⟩
    intro st hst
    refine ⟨st, hst, ?_⟩
    intro fuel _
    rw [labelEdges, if_neg (not_not.mpr rfl)]
    rfl
  · obtain ⟨y, l, e', hleads, _, hmem'⟩ := h.next v x e d hmem (Ne.symm hvx)
    obtain ⟨es, ns, F, hroute, hrun⟩ := h.getEdges_spec hmem'
    obtain ⟨ls, k, hexp, hpath⟩ := hleads.path
    have hroute' := Route.cons hexp hpath hroute
    rw [add_sub_cancel] at hroute'
    refine ⟨e :: es, _, _, hroute', ?_⟩
    intro st hst
    obtain ⟨st₁, hpush, hst₁⟩ := IntStack.push_spec hst e
    obtain ⟨st', hst', hget⟩ := hrun st₁ _ hst₁
    refine ⟨st', hst', ?_⟩
    intro fuel hfuel
    have hedge : N.getLabelEdge ((rowStart (labelTable n ent) v : Int) + i) = .ok e :=
      rd_column h.arrays.edge hv hi
    rw [labelEdges, if_pos hvx, hedge, ok_bind, hleads.dest, ok_bind, hpush, ok_bind,
      hget fuel (by omega)]

/-! ## `route2Lbl` -/

/-- A common label is on a walk between the two nodes. -/
theorem walk_over {s t x a b : Int} (hsymm : ∀ u v l, G u v l → G v u l) (hs : Walk G s x a)
    (ht : Walk G t x b) : Walk G s t (a + b) :=
  hs.append (ht.reverse hsymm)

/-- What the merge selects between two sides: nothing, if no node is shared, and
otherwise a shared node on a shortest way. -/
theorem IsBest.isDist {la lb : List (Int × Int)} {offA offB s t : Int} {best : Selection}
    (h : IsBest offA offB la lb best) (hsymm : ∀ u v l, G u v l → G v u l)
    (hbound : ∀ d, IsDist G s t d → d < MAX_VALUE)
    (hA : ∀ x a, (x, a) ∈ la → 0 ≤ x ∧ Walk G s x a) (hB : ∀ x b, (x, b) ∈ lb → Walk G t x b)
    (hcover : ∀ d, IsDist G s t d → ∃ x a b, (x, a) ∈ la ∧ (x, b) ∈ lb ∧ a + b = d)
    (hnn : ∀ u v l, G u v l → 0 ≤ l) :
    (best = noSelection ∧ ¬ ∃ L, Walk G s t L) ∨
      ∃ (i j : Nat) (x a b : Int), la[i]? = some (x, a) ∧ lb[j]? = some (x, b) ∧ 0 ≤ x ∧
        IsDist G s t (a + b) ∧
        best = { highestLvlNode := x, currDistance := a + b, idxA := offA + (i : Nat)
                 idxB := offB + (j : Nat) } := by
  rcases h.found with hnone | ⟨i, j, x, a, b, hi, hj, hmax, hbest⟩
  · refine Or.inl ⟨hnone, ?_⟩
    rintro ⟨L, hL⟩
    obtain ⟨d, hd⟩ := exists_isDist hnn hL
    obtain ⟨x, a, b, ha, hb, hsum⟩ := hcover d hd
    have hlt := hbound d hd
    have hleast := h.least x a b ha hb (by omega)
    rw [hnone] at hleast
    simp only [noSelection] at hleast
    omega
  · have hx := hA x a (List.mem_of_getElem? hi)
    have hwalk := walk_over hsymm hx.2 (hB x b (List.mem_of_getElem? hj))
    obtain ⟨d, hd⟩ := exists_isDist hnn hwalk
    obtain ⟨x', a', b', ha', hb', hsum⟩ := hcover d hd
    have hlt := hbound d hd
    have hleast := h.least x' a' b' ha' hb' (by omega)
    have hle := hd.2 _ hwalk
    have heq : a + b = d := by
      rw [hbest] at hleast
      simp only at hleast
      omega
    exact Or.inr ⟨i, j, x, a, b, hi, hj, hx.1, heq ▸ hd, hbest⟩

/-- What a request returns: a shortest path, if there is one. -/
def Answers (G : Int → Int → Int → Prop) (s t : Int) (result : RoutingResult) : Prop :=
  (result.routeFound = false ↔ ¬ ∃ L, Walk G s t L) ∧
    (result.routeFound = true → IsDist G s t result.overallDistance ∧
      IsPath G result.path s t result.overallDistance)

theorem answers_notFound {s t : Int} (h : ¬ ∃ L, Walk G s t L) :
    Answers G s t RoutingResult.notFound :=
  ⟨by simp [RoutingResult.notFound, h], by simp [RoutingResult.notFound]⟩

theorem answers_found {s t d : Int} {path : List Int} (hd : IsDist G s t d)
    (hp : IsPath G path s t d) : Answers G s t (RoutingResult.found path d) :=
  ⟨by simpa [RoutingResult.found] using ⟨d, hd.1⟩, fun _ => ⟨hd, hp⟩⟩

/-- Between two nodes with labels the router finds a shortest path, and it finds
none only if there is none.  It never reads outside of the arrays, and it ends:
any number of iterations from `F` on is enough. -/
theorem route2Lbl_spec (h : LabelData G n H N ent) {s t : Int} (hs0 : 0 ≤ s) (hs1 : s < n)
    (ht0 : 0 ≤ t) (ht1 : t < n) (hs : Labelled N s) (ht : Labelled N t) (hst : s ≠ t)
    {r : HubLRouter} (hr : Stacks r [] [] []) :
    ∃ F result, Answers G s t result ∧
      ∀ fuel, F ≤ fuel → ∃ r', route2Lbl fuel H N r s t = .ok (result, r') := by
  obtain ⟨u, rfl⟩ : ∃ u : Nat, s = u := ⟨s.toNat, by omega⟩
  obtain ⟨v, rfl⟩ : ∃ v : Nat, t = v := ⟨t.toNat, by omega⟩
  have hnn := h.nonneg
  obtain ⟨hu, hu'⟩ := h.arrays.offset (v := u) (by omega)
  obtain ⟨hv, hv'⟩ := h.arrays.offset (v := v) (by omega)
  by_cases hempty : (rowStart (labelTable n ent) u : Int) =
        (rowStart (labelTable n ent) u : Int) + (ent (u : Int)).length ∨
      (rowStart (labelTable n ent) v : Int) =
        (rowStart (labelTable n ent) v : Int) + (ent (v : Int)).length
  · refine ⟨0, RoutingResult.notFound, answers_notFound ?_, ?_⟩
    · rintro ⟨L, hL⟩
      obtain ⟨d, hd⟩ := exists_isDist hnn hL
      obtain ⟨x, e, a, e', b, hmem, hmem', _⟩ := h.cover u v d hs ht hst hd
      have h1 := List.length_pos_of_mem hmem
      have h2 := List.length_pos_of_mem hmem'
      omega
    · intro fuel _
      refine ⟨r, ?_⟩
      simp only [route2Lbl, hu, hu', hv, hv', ok_bind, if_pos hempty]
      rfl
  · obtain ⟨best, hmerge, hbest⟩ := mergeLoop_spec (h.arrays.reads (v := u) (by omega))
      (h.arrays.reads (v := v) (by omega)) (h.hubs_sorted u) (h.hubs_sorted v)
    have hlen : ∀ w : Int, ((hubs ent w).length : Int) = (ent w).length := by
      intro w
      simp [hubs]
    rw [hlen, hlen] at hmerge
    have hside : ∀ (w x a : Int), (x, a) ∈ hubs ent w → 0 ≤ x ∧ Walk G w x a := by
      intro w x a hmem
      obtain ⟨e, he⟩ := mem_hubs.mp hmem
      exact ⟨(h.hub w x e a he).1, (h.exact w x e a he).1⟩
    have hcover : ∀ d, IsDist G (u : Int) (v : Int) d → ∃ x a b, (x, a) ∈ hubs ent (u : Int) ∧
        (x, b) ∈ hubs ent (v : Int) ∧ a + b = d := by
      intro d hd
      obtain ⟨x, e, a, e', b, hmem, hmem', hsum⟩ := h.cover u v d hs ht hst hd
      exact ⟨x, a, b, mem_hubs.mpr ⟨e, hmem⟩, mem_hubs.mpr ⟨e', hmem'⟩, hsum⟩
    rcases hbest.isDist h.symm (h.bound u v) (hside u) (fun x b hb => (hside v x b hb).2) hcover hnn
      with ⟨hnone, hno⟩ | ⟨i, j, x, a, b, hi, hj, hx, hd, hsel⟩
    · refine ⟨0, RoutingResult.notFound, answers_notFound hno, ?_⟩
      intro fuel _
      refine ⟨r, ?_⟩
      simp only [route2Lbl, hu, hu', hv, hv', ok_bind, if_neg hempty, hmerge, hnone, noSelection,
        if_true]
      rfl
    · obtain ⟨e, he⟩ := hubs_get hi
      obtain ⟨e', he'⟩ := hubs_get hj
      obtain ⟨es, ns, F, hroute, hedges⟩ := h.labelEdges_spec (v := u) (by omega) he
      obtain ⟨es', ns', F', hroute', hedges'⟩ := h.labelEdges_spec (v := v) (by omega) he'
      obtain ⟨left, hleft, hrunLeft⟩ := hedges r.edgesLeft hr.left_
      obtain ⟨right, hright, hrunRight⟩ := hedges' r.edgesRight hr.right_
      obtain ⟨B, path, hpath, hfinish⟩ := finish_spec h.symm hroute hroute'
        (r := { r with edgesRight := right, edgesLeft := left })
        ⟨hleft, hright, hr.calc_, hr.result_⟩ (a + b)
      refine ⟨B + F + F', RoutingResult.found path (a + b), answers_found hd hpath, ?_⟩
      intro fuel hfuel
      obtain ⟨r', hr'⟩ := hfinish fuel (by omega)
      refine ⟨r', ?_⟩
      simp only [route2Lbl, hu, hu', hv, hv', ok_bind, if_neg hempty, hmerge, hsel,
        if_neg (show ¬ x = -1 by omega), hrunLeft fuel (by omega), hrunRight fuel (by omega), hr']

/-! ## A chain with two shortcuts -/

/-- The distance of a node of the chain from its first one. -/
def chainPos (v : Int) : Int :=
  if v = 0 then 0 else if v ≤ 2 then 1 else if v = 3 then 3 else 4

/-- A chain of five nodes; the edge between the nodes 1 and 2 has the length 0. -/
def ChainAdj (u v l : Int) : Prop :=
  (0 ≤ u ∧ u < 5) ∧ (0 ≤ v ∧ v < 5) ∧ (v = u + 1 ∨ u = v + 1) ∧
    l = ((chainPos v - chainPos u).natAbs : Int)

/-- The store of its edges, with the shortcuts from 0 to 2 and from 4 to 2. -/
def chainEdges : HubLEdges where
  dest := [1, 0, 2, 1, 3, 2, 4, 3, 2, 2]
  dist := [1, 1, 0, 0, 2, 2, 1, 1, 1, 3]
  firstShortcutIdx := 8
  shortcutParts := [2, 0, 5, 7]

/-- The labels of its nodes, of which `2` is on the highest level. -/
def chainEntries (v : Int) : List (Int × Int × Int) :=
  if v = 0 then [(0, -1, 0), (2, 8, 1)]
  else if v = 1 then [(0, 1, 1), (1, -1, 0), (2, 2, 0)]
  else if v = 2 then [(2, -1, 0)]
  else if v = 3 then [(2, 5, 2), (3, -1, 0), (4, 6, 1)]
  else if v = 4 then [(2, 9, 3), (4, -1, 0)]
  else []

def chainNodes : HubLNodes where
  hlLevel := 0
  levels := [1, 0, 2, 0, 1]
  edgesOffset := [0, 0, 0, 0, 0, 0]
  edges := []
  labelOffset := [0, 2, 5, 6, 9, 11]
  labelNode := [0, 2, 0, 1, 2, 2, 2, 3, 4, 2, 4, -1]
  labelEdge := [-1, 8, 1, -1, 2, -1, 5, -1, 6, 9, -1, -1]
  labelDist := [0, 1, 1, 0, 0, 0, 2, 0, 1, 3, 0, 0]

instance (u v l : Int) : Decidable (ChainAdj u v l) :=
  inferInstanceAs (Decidable ((0 ≤ u ∧ u < 5) ∧ (0 ≤ v ∧ v < 5) ∧ (v = u + 1 ∨ u = v + 1) ∧
    l = ((chainPos v - chainPos u).natAbs : Int)))

theorem chainAdj_nonneg (u v l : Int) (h : ChainAdj u v l) : 0 ≤ l := by
  rw [h.2.2.2]
  exact Int.natCast_nonneg _

theorem chainAdj_symm (u v l : Int) (h : ChainAdj u v l) : ChainAdj v u l := by
  obtain ⟨hu, hv, hstep, hl⟩ := h
  exact ⟨hv, hu, hstep.symm, by rw [hl]; omega⟩

theorem chainPos_mono {u v : Int} (h0 : 0 ≤ u) (huv : u ≤ v) (hv : v < 5) :
    chainPos u ≤ chainPos v := by
  unfold chainPos
  split_ifs <;> omega

/-- The chain from one node upwards. -/
theorem chain_walk {u : Int} (h0 : 0 ≤ u) (k : Nat) (hk : u + k < 5) :
    Walk ChainAdj u (u + k) (chainPos (u + k) - chainPos u) := by
  induction k with
  | zero =>
    rw [Nat.cast_zero, add_zero, sub_self]
    exact Walk.nil u
  | succ k ih =>
    have hmono := chainPos_mono (u := u + k) (v := u + (k + 1 : Nat)) (by omega) (by omega) hk
    have hedge : ChainAdj (u + k) (u + (k + 1 : Nat))
        (chainPos (u + (k + 1 : Nat)) - chainPos (u + k)) :=
      ⟨⟨by omega, by omega⟩, ⟨by omega, hk⟩, Or.inl (by push_cast; ring), by omega⟩
    have hwalk := (ih (by push_cast at hk; omega)).snoc hedge
    rw [sub_add_sub_cancel'] at hwalk
    exact hwalk

/-- No way is shorter than the chain. -/
theorem isDist_chain {u v : Int} (hu : 0 ≤ u ∧ u < 5) (hv : 0 ≤ v ∧ v < 5) :
    IsDist ChainAdj u v ((chainPos v - chainPos u).natAbs : Int) := by
  have hup : ∀ u v : Int, 0 ≤ u → u ≤ v → v < 5 →
      Walk ChainAdj u v ((chainPos v - chainPos u).natAbs : Int) := by
    intro u v h0 huv h1
    obtain ⟨k, rfl⟩ : ∃ k : Nat, v = u + k := ⟨(v - u).toNat, by omega⟩
    rw [Int.natAbs_of_nonneg (sub_nonneg.mpr (chainPos_mono h0 huv h1))]
    exact chain_walk h0 k h1
  constructor
  · rcases le_total u v with huv | hvu
    · exact hup u v hu.1 huv hv.2
    · have hcomm : (chainPos v - chainPos u).natAbs = (chainPos u - chainPos v).natAbs := by omega
      rw [hcomm]
      exact (hup v u hv.1 hvu hu.2).reverse chainAdj_symm
  · intro L hL
    have h1 := hL.climb_le chainPos (by
      intro u v l h
      have := h.2.2.2
      omega)
    have h2 := hL.climb_le (fun v => -chainPos v) (by
      intro u v l h
      have := h.2.2.2
      omega)
    omega

/-- Nodes that a walk joins are one node or both in the chain. -/
theorem chain_node {u v l : Int} (h : Walk ChainAdj u v l) (huv : u ≠ v) :
    (0 ≤ u ∧ u < 5) ∧ 0 ≤ v ∧ v < 5 := by
  have hstart : ∀ {u v l : Int}, Walk ChainAdj u v l → u ≠ v → 0 ≤ u ∧ u < 5 := by
    intro u v l h huv
    cases h with
    | nil => exact absurd rfl huv
    | cons he _ => exact he.1
  exact ⟨hstart h huv, hstart (h.reverse chainAdj_symm) (Ne.symm huv)⟩

theorem mem_chainEntries {v : Int} {x : Int × Int × Int} (h : x ∈ chainEntries v) :
    v ∈ indices 0 5 := by
  rw [mem_indices]
  unfold chainEntries at h
  split_ifs at h
  all_goals first | omega | exact absurd h List.not_mem_nil

theorem chain_labels : ∀ v ∈ indices 0 5, ∀ x ∈ chainEntries v,
    (0 ≤ x.1 ∧ x.1 < 5) ∧ x.2.2 = ((chainPos x.1 - chainPos v).natAbs : Int) := by
  decide

theorem chain_cover : ∀ s ∈ indices 0 5, ∀ t ∈ indices 0 5, ∃ x ∈ chainEntries s,
    ∃ y ∈ chainEntries t, x.1 = y.1 ∧ x.2.2 + y.2.2 = ((chainPos t - chainPos s).natAbs : Int) := by
  decide

/-- An original edge of the chain. -/
theorem chain_leads {e u v l : Int} (he : chainEdges.isShortcut e = false)
    (hd : chainEdges.getDest e = .ok v) (hl : chainEdges.getDist e = .ok l)
    (hadj : ChainAdj u v l) : Leads chainEdges ChainAdj e u v l := by
  refine ⟨hd, hl, [e], 1, Expands.original he hd, ?_⟩
  have hdest : destOf chainEdges e = v := by
    rw [destOf, hd]
    rfl
  have hpath := IsPath.cons hadj (IsPath.nil v)
  rw [add_zero] at hpath
  rw [List.map_singleton, hdest]
  exact hpath

/-- A shortcut of the chain. -/
theorem chain_shortcut {e p q u w v l m : Int} (he : chainEdges.isShortcut e = true)
    (hp : chainEdges.getSecondShortcut e = .ok p) (hq : chainEdges.getFirstShortcut e = .ok q)
    (hd : chainEdges.getDest e = .ok v) (hl : chainEdges.getDist e = .ok (l + m))
    (hlq : Leads chainEdges ChainAdj q u w l) (hlp : Leads chainEdges ChainAdj p w v m) :
    Leads chainEdges ChainAdj e u v (l + m) := by
  obtain ⟨ls, k, hexp, hpath⟩ := hlq.path
  obtain ⟨ls', k', hexp', hpath'⟩ := hlp.path
  refine ⟨hd, hl, ls ++ ls', k + k' + 1, Expands.shortcut he hp hq hexp hexp', ?_⟩
  have hlast := hpath.getLast?_eq
  rw [List.getLast?_eq_some_iff] at hlast
  obtain ⟨ys, hys⟩ := hlast
  have happ := hpath.append hpath'
  rw [hys, List.dropLast_concat] at happ
  rw [List.map_append, ← List.cons_append, hys, List.append_assoc]
  exact happ

theorem chain_offset {rows : List (List Int)} (hlen : rows.length = 5)
    (h : ∀ v ∈ List.range 6, rd chainNodes.labelOffset (v : Int) = .ok (rowStart rows v : Int)) :
    ∀ v : Nat, v ≤ rows.length → rd chainNodes.labelOffset v = .ok (rowStart rows v : Int) := by
  intro v hv
  exact h v (List.mem_range.mpr (by omega))

/-- The edge of a label leads to a higher node, which has the same hub. -/
theorem chain_next : ∀ v ∈ indices 0 5, ∀ x ∈ chainEntries v, x.1 ≠ v →
    ∃ y l e', Leads chainEdges ChainAdj x.2.1 v y l ∧ levelOf chainNodes v < levelOf chainNodes y ∧
      (x.1, e', x.2.2 - l) ∈ chainEntries y := by
  have h01 : Leads chainEdges ChainAdj 0 0 1 1 := chain_leads rfl rfl rfl (by decide)
  have h10 : Leads chainEdges ChainAdj 1 1 0 1 := chain_leads rfl rfl rfl (by decide)
  have h12 : Leads chainEdges ChainAdj 2 1 2 0 := chain_leads rfl rfl rfl (by decide)
  have h32 : Leads chainEdges ChainAdj 5 3 2 2 := chain_leads rfl rfl rfl (by decide)
  have h34 : Leads chainEdges ChainAdj 6 3 4 1 := chain_leads rfl rfl rfl (by decide)
  have h43 : Leads chainEdges ChainAdj 7 4 3 1 := chain_leads rfl rfl rfl (by decide)
  have h02 : Leads chainEdges ChainAdj 8 0 2 1 := chain_shortcut rfl rfl rfl rfl rfl h01 h12
  have h42 : Leads chainEdges ChainAdj 9 4 2 3 := chain_shortcut rfl rfl rfl rfl rfl h43 h32
  intro v hv x hx hne
  have hcases : (v, x) ∈ (indices 0 5).flatMap fun v => (chainEntries v).map fun x => (v, x) :=
    List.mem_flatMap.mpr ⟨v, hv, List.mem_map_of_mem hx⟩
  have hlist : ((indices 0 5).flatMap fun v => (chainEntries v).map fun x => (v, x)) =
      [(0, 0, -1, 0), (0, 2, 8, 1), (1, 0, 1, 1), (1, 1, -1, 0), (1, 2, 2, 0), (2, 2, -1, 0),
        (3, 2, 5, 2), (3, 3, -1, 0), (3, 4, 6, 1), (4, 2, 9, 3), (4, 4, -1, 0)] := by decide
  rw [hlist] at hcases
  simp only [List.mem_cons, Prod.mk.injEq, List.not_mem_nil, or_false] at hcases
  rcases hcases with ⟨rfl, rfl⟩ | ⟨rfl, rfl⟩ | ⟨rfl, rfl⟩ | ⟨rfl, rfl⟩ | ⟨rfl, rfl⟩ | ⟨rfl, rfl⟩ |
    ⟨rfl, rfl⟩ | ⟨rfl, rfl⟩ | ⟨rfl, rfl⟩ | ⟨rfl, rfl⟩ | ⟨rfl, rfl⟩
  · exact absurd rfl hne
  · exact ⟨2, 1, -1, h02, by decide, by decide⟩
  · exact ⟨0, 1, -1, h10, by decide, by decide⟩
  · exact absurd rfl hne
  · exact ⟨2, 0, -1, h12, by decide, by decide⟩
  · exact absurd rfl hne
  · exact ⟨2, 2, -1, h32, by decide, by decide⟩
  · exact absurd rfl hne
  · exact ⟨4, 1, -1, h34, by decide, by decide⟩
  · exact ⟨2, 3, -1, h42, by decide, by decide⟩
  · exact absurd rfl hne

theorem chain_labelData : LabelData ChainAdj 5 chainEdges chainNodes chainEntries where
  arrays := {
    levels := rfl
    node := ⟨rfl, chain_offset rfl (by decide), [-1], rfl⟩
    edge := ⟨rfl, chain_offset rfl (by decide), [-1], rfl⟩
    dist := ⟨rfl, chain_offset rfl (by decide), [0], rfl⟩
    more := by decide }
  symm := chainAdj_symm
  nonneg := chainAdj_nonneg
  bound := by
    intro u v d hd
    have hpos : ∀ v, 0 ≤ chainPos v ∧ chainPos v ≤ 4 := by
      intro v
      unfold chainPos
      split_ifs <;> omega
    have hu := hpos u
    have hv := hpos v
    rw [MAX_VALUE]
    by_cases huv : u = v
    · rw [huv] at hd
      have := hd.unique (isDist_self chainAdj_nonneg v)
      omega
    · obtain ⟨hu', hv'⟩ := chain_node hd.1 huv
      have := hd.unique (isDist_chain hu' hv')
      omega
  sorted := by
    intro v
    unfold chainEntries
    split_ifs <;> simp
  hub := by
    intro v h e d hmem
    exact (chain_labels v (mem_chainEntries hmem) _ hmem).1
  exact := by
    intro v h e d hmem
    have hv := mem_chainEntries hmem
    obtain ⟨hh, hd⟩ := chain_labels v hv _ hmem
    simp only at hh hd
    rw [hd]
    exact isDist_chain (mem_indices.mp hv) hh
  cover := by
    intro s t d _ _ hne hd
    obtain ⟨hs, ht⟩ := chain_node hd.1 hne
    obtain ⟨⟨h, e, a⟩, hx, ⟨h', e', b⟩, hy, heq, hsum⟩ :=
      chain_cover s (mem_indices.mpr hs) t (mem_indices.mpr ht)
    simp only at heq hsum
    rw [← heq] at hy
    exact ⟨h, e, a, e', b, hx, hy, hsum.trans (isDist_chain hs ht |>.unique hd)⟩
  next := by
    intro v h e d hmem hne
    exact chain_next v (mem_chainEntries hmem) _ hmem hne
  node := by
    intro v hne
    obtain ⟨x, hx⟩ := List.exists_mem_of_ne_nil _ hne
    exact mem_indices.mp (mem_chainEntries hx)

theorem stacks_new : Stacks HubLRouter.new [] [] [] :=
  ⟨IntStack.new_holds (by decide), IntStack.new_holds (by decide), IntStack.new_holds (by decide),
    IntStack.new_holds (by decide)⟩

/-- From one end of the chain to the other the hub is `2`, and a shortcut is unpacked
on either side of it. -/
theorem route2Lbl_spec_chain :
    Stacks HubLRouter.new [] [] [] ∧ ∃ F result, Answers ChainAdj 0 4 result ∧
      ∀ fuel, F ≤ fuel →
        ∃ r', route2Lbl fuel chainEdges chainNodes HubLRouter.new 0 4 = .ok (result, r') :=
  ⟨stacks_new, route2Lbl_spec chain_labelData (by decide) (by decide) (by decide) (by decide)
    (by decide) (by decide) (by decide) stacks_new⟩

example : (route2Lbl 20 chainEdges chainNodes HubLRouter.new 0 4).map Prod.fst =
    .ok (RoutingResult.found [0, 1, 2, 3, 4] 4) := by
  decide +kernel

end HubLRouter

end SeaRouter
