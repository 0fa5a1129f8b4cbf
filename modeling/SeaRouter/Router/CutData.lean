import SeaRouter.Router.LabelData

/-!
# Labels above a level and edges below it

Only the nodes from the level `hlLevel` on have labels.  The other ones keep
their edges to higher levels, `ups v` for the node `v`, which are the graph
`Stored`.  `CutData` is what a search from a node without labels relies on: the
stored edges begin shortest ways, and the labels are exact and cover the nodes
that have them.

`CutData.meet` says what this is good for.  The searches from two nodes over the
stored edges meet on a shortest way, or reach two nodes of one that have labels.
-/

namespace SeaRouter

open Java WGraph

namespace HubLRouter

/-- The stored edges of all nodes, in order. -/
def edgeTable (n : Nat) (ups : Int → List Int) : List (List Int) :=
  (List.range n).map fun v : Nat => ups (v : Int)

/-- The edges that are stored for the nodes without labels, as a graph. -/
def Stored (H : HubLEdges) (N : HubLNodes) (ups : Int → List Int) (u v l : Int) : Prop :=
  ¬ Labelled N u ∧ ∃ e ∈ ups u, H.getDest e = .ok v ∧ H.getDist e = .ok l

/-- The hub labels of the undirected graph `G`, for the nodes from some level on,
and the stored edges of the others. -/
structure CutData (G : Int → Int → Int → Prop) (n : Nat) (H : HubLEdges) (N : HubLNodes)
    (ups : Int → List Int) (ent : Int → List (Int × Int × Int)) : Prop where
  arrays : LabelArrays n N ent
  rows : IsRows N.edgesOffset N.edges (edgeTable n ups)
  small : (n : Int) ≤ MAX_VALUE
  symm : ∀ u v l, G u v l → G v u l
  pos : ∀ u v l, G u v l → 0 < l
  bound : ∀ u v d, IsDist G u v d → d < MAX_VALUE
  sorted : ∀ v, ((ent v).map fun e => e.1).Pairwise (· < ·)
  hub : ∀ v h e d, (h, e, d) ∈ ent v → 0 ≤ h ∧ h < n
  node : ∀ v, ent v ≠ [] → 0 ≤ v ∧ v < n
  exact : ∀ v h e d, (h, e, d) ∈ ent v → IsDist G v h d
  cover : ∀ s t d : Int, (0 ≤ s ∧ s < n) → (0 ≤ t ∧ t < n) → Labelled N s → Labelled N t →
    IsDist G s t d → ∃ h e a e' b, (h, e, a) ∈ ent s ∧ (h, e', b) ∈ ent t ∧ a + b = d
  edge : ∀ u e, ¬ Labelled N u → e ∈ ups u → ∃ v l, H.getDest e = .ok v ∧ H.getDist e = .ok l ∧
    Walk G u v l ∧ levelOf N u < levelOf N v ∧ 0 ≤ v ∧ v < n
  hop : ∀ u w d, ¬ Labelled N u → IsDist G u w d → w ≠ u → levelOf N u ≤ levelOf N w →
    ∃ x l b, Stored H N ups u x l ∧ IsDist G x w b ∧ l + b = d

theorem LabelArrays.nodeHasLabels {n : Nat} {N : HubLNodes} {ent : Int → List (Int × Int × Int)}
    (h : LabelArrays n N ent) {v : Int} (h0 : 0 ≤ v) (h1 : v < n) :
    N.nodeHasLabels v = .ok (decide (Labelled N v)) := by
  obtain ⟨x, hx⟩ := exists_rd (a := N.levels) h0 (by rw [h.levels]; exact h1)
  have hlevel : levelOf N v = x := by
    rw [levelOf, HLDijkstra.level, hx]
    rfl
  rw [HubLNodes.nodeHasLabels, hx, ok_bind, pure_eq_ok]
  congr 1
  simp only [Labelled, hlevel]

namespace CutData

variable {G : Int → Int → Int → Prop} {n : Nat} {H : HubLEdges} {N : HubLNodes}
  {ups : Int → List Int} {ent : Int → List (Int × Int × Int)}

theorem nonneg (h : CutData G n H N ups ent) (u v l : Int) (hg : G u v l) : 0 ≤ l :=
  le_of_lt (h.pos u v l hg)

/-! ## The stored edges -/

theorem stored (h : CutData G n H N ups ent) {u v l : Int} (hs : Stored H N ups u v l) :
    Walk G u v l ∧ levelOf N u < levelOf N v ∧ 0 ≤ v ∧ v < n := by
  obtain ⟨hu, e, he, hv, hl⟩ := hs
  obtain ⟨v', l', hv', hl', hrest⟩ := h.edge u e hu he
  rw [hv, Except.ok.injEq] at hv'
  rw [hl, Except.ok.injEq] at hl'
  rw [hv', hl']
  exact hrest

theorem stored_pos (h : CutData G n H N ups ent) (u v l : Int) (hs : Stored H N ups u v l) :
    0 < l := by
  obtain ⟨hw, hlevel, _⟩ := h.stored hs
  apply hw.pos h.pos
  rintro rfl
  omega

theorem stored_nonneg (h : CutData G n H N ups ent) (u v l : Int) (hs : Stored H N ups u v l) :
    0 ≤ l :=
  le_of_lt (h.stored_pos u v l hs)

/-- A way over stored edges is one of the graph. -/
theorem stored_walk (h : CutData G n H N ups ent) {u v l : Int}
    (hw : Walk (Stored H N ups) u v l) : Walk G u v l :=
  hw.trans_edges fun _ _ _ hs => (h.stored hs).1

/-- A way over stored edges leads upwards. -/
theorem stored_level (h : CutData G n H N ups ent) {u v l : Int}
    (hw : Walk (Stored H N ups) u v l) : levelOf N u ≤ levelOf N v := by
  induction hw with
  | nil u => exact le_refl _
  | cons hs _ ih =>
    have := (h.stored hs).2.1
    omega

theorem stored_node (h : CutData G n H N ups ent) {u v l : Int}
    (hw : Walk (Stored H N ups) u v l) (h0 : 0 ≤ u) (h1 : u < n) : 0 ≤ v ∧ v < n :=
  Walk.mem_of_closed (E := Stored H N ups) (P := fun v : Int => 0 ≤ v ∧ v < n)
    (fun _ _ _ hs _ => (h.stored hs).2.2) hw ⟨h0, h1⟩

/-- No stored edge leaves a node with labels. -/
theorem stored_labelled {u v l : Int} (hu : Labelled N u)
    (hw : Walk (Stored H N ups) u v l) : v = u ∧ l = 0 := by
  cases hw with
  | nil => exact ⟨rfl, rfl⟩
  | cons hs _ => exact absurd hu hs.1

/-! ## Two searches -/

/-- The levels are bounded. -/
theorem exists_level_le (N : HubLNodes) : ∃ B : Int, ∀ u, levelOf N u ≤ B := by
  refine ⟨(N.levels.map Int.natAbs).sum, ?_⟩
  intro u
  rw [levelOf, HLDijkstra.level]
  cases hrd : rd N.levels u with
  | error e =>
    show (0 : Int) ≤ _
    omega
  | ok x =>
    show x ≤ _
    have hmem : x.natAbs ∈ N.levels.map Int.natAbs := List.mem_map.mpr ⟨x, mem_of_rd hrd, rfl⟩
    have := List.single_le_sum (by simp) _ hmem
    omega

theorem meet (h : CutData G n H N ups ent) {s t d : Int} (hd : IsDist G s t d) :
    ∃ x y a m c, Walk (Stored H N ups) s x a ∧ Walk (Stored H N ups) t y c ∧ IsDist G x y m ∧
      a + m + c = d ∧ (x = y ∨ Labelled N x ∧ Labelled N y) := by
  obtain ⟨B, hB⟩ := exists_level_le N
  have hhop : ∀ u w d, levelOf N u < N.hlLevel → IsDist G u w d → w ≠ u →
      levelOf N u ≤ levelOf N w → ∃ x l b, Stored H N ups u x l ∧ IsDist G x w b ∧ l + b = d := by
    intro u w d hu
    exact h.hop u w d (not_le.mpr hu)
  apply WGraph.meet h.symm hB _ hhop _ s t d rfl hd
  intro u x l hs
  exact (h.stored hs).2.1

/-- A node with labels is one of its own hubs. -/
theorem self_label (h : CutData G n H N ups ent) {v : Int} (h0 : 0 ≤ v) (h1 : v < n)
    (hv : Labelled N v) : ∃ e, (v, e, 0) ∈ ent v := by
  obtain ⟨x, e, a, e', b, hx, hx', hsum⟩ := h.cover v v 0 ⟨h0, h1⟩ ⟨h0, h1⟩ hv hv
    (isDist_self h.nonneg v)
  have ha := (h.exact v x e a hx).nonneg h.nonneg
  have hb := (h.exact v x e' b hx').nonneg h.nonneg
  have hxv : v = x := by
    by_contra hne
    have := (h.exact v x e a hx).1.pos h.pos hne
    omega
  have ha0 : a = 0 := by omega
  rw [← hxv, ha0] at hx
  exact ⟨e, hx⟩

/-! ## Reading the stored edges -/

theorem edgeTable_get {v : Nat} (hv : v < n) : (edgeTable n ups)[v]? = some (ups (v : Int)) := by
  rw [edgeTable, List.getElem?_map, List.getElem?_range hv]
  rfl

/-- The edges of a node in the array. -/
theorem edges_offset (h : CutData G n H N ups ent) {v : Nat} (hv : v < n) :
    N.getEdgeOffset v = .ok (rowStart (edgeTable n ups) v : Int) ∧
      N.getEdgeOffset ((v : Int) + 1) =
        .ok ((rowStart (edgeTable n ups) v + (ups (v : Int)).length : Nat) : Int) ∧
      ∀ (i : Nat) (e : Int), (ups (v : Int))[i]? = some e →
        N.getEdge ((rowStart (edgeTable n ups) v + i : Nat) : Int) = .ok e := by
  obtain ⟨pre, post, hdata, hpre, h1, h2⟩ := h.rows.row (edgeTable_get hv)
  rw [hpre] at h1 h2
  refine ⟨h1, h2, ?_⟩
  intro i e he
  obtain ⟨hi, _⟩ := List.getElem?_eq_some_iff.mp he
  rw [HubLNodes.getEdge, ← hpre, hdata, List.append_assoc]
  apply rd_of_getElem?
  rw [List.getElem?_append_right (by omega), Nat.add_sub_cancel_left,
    List.getElem?_append_left hi, he]

/-- Whether a node has labels. -/
theorem nodeHasLabels (h : CutData G n H N ups ent) {v : Int} (h0 : 0 ≤ v) (h1 : v < n) :
    N.nodeHasLabels v = .ok (decide (Labelled N v)) :=
  h.arrays.nodeHasLabels h0 h1

end CutData

end HubLRouter

end SeaRouter
