import SeaRouter.Router.TempLabels

/-!
# The labels of the nodes that were found

The second loop of `calcTempLabels` takes the nodes with labels from their heap
and adds the distances over their labels to the table.  This may lower the
distance of a node that is taken later, or was taken before.

`Folding` keeps the nodes that were taken, in order, each with the distance that
its labels were added to.  An entry that did not come from the search,
`FromLabel`, is from the first of them that offers its distance.
`calcTempLabels_spec` puts both loops together.
-/

namespace SeaRouter

open Java WGraph

namespace HubLRouter

open TempLabels

variable {G : Int → Int → Int → Prop} {n : Nat} {H : HubLEdges} {N : HubLNodes}
  {ups : Int → List Int} {ent : Int → List (Int × Int × Int)} {T₁ T : Int → Option Entry}
  {L : Int → Option Int} {ps : List (Int × Int)}

/-- The entry of `h` is over the label `(h, e, d)` of `w`, the `i`-th node that was
taken, at the distance `p`. -/
structure FromLabel (ent : Int → List (Int × Int × Int)) (T₁ : Int → Option Entry)
    (ps : List (Int × Int)) (h : Int) (en : Entry) (i : Nat) (w p e d : Int) : Prop where
  taken : ps[i]? = some (w, p)
  label : (h, e, d) ∈ ent w
  entry : en = ⟨p + d, e, w * (-1) - 2⟩
  better : ∀ en₁, T₁ h = some en₁ → p + d < en₁.dist
  first : ∀ (j : Nat) (w' p' e' d' : Int), j < i → ps[j]? = some (w', p') → (h, e', d') ∈ ent w' →
    p + d < p' + d'

/-- The `i`-th node that was taken is `w`, at the distance `p`. -/
structure Taken (N : HubLNodes) (ent : Int → List (Int × Int × Int)) (T₁ : Int → Option Entry)
    (ps : List (Int × Int)) (i : Nat) (w p : Int) : Prop where
  labelled : Labelled N w
  found : ∃ en₁, T₁ w = some en₁ ∧ p ≤ en₁.dist ∧ (p = en₁.dist ∨ ∃ (j : Nat) (w' p' e' d' : Int),
    j < i ∧ ps[j]? = some (w', p') ∧ (w, e', d') ∈ ent w' ∧ p = p' + d')
  low : ∀ (j : Nat) (w' p' e' d' : Int), j < i → ps[j]? = some (w', p') → (w, e', d') ∈ ent w' →
    p ≤ p' + d'
  order : ∀ (j : Nat) (w' p' : Int) (en₁ en₁' : Entry), j < i → ps[j]? = some (w', p') →
    T₁ w = some en₁ → T₁ w' = some en₁' → en₁'.dist ≤ en₁.dist

/-- The table `T` after the nodes `ps` were taken; `T₁` is the table after the
search.  The labels that are `todo` were not added yet. -/
structure Folding (N : HubLNodes) (ent : Int → List (Int × Int × Int))
    (T₁ T : Int → Option Entry) (L : Int → Option Int) (ps : List (Int × Int))
    (todo : Int → Int → Prop) : Prop where
  keep : ∀ v en₁, T₁ v = some en₁ → ∃ en, T v = some en ∧ en.dist ≤ en₁.dist
  entry : ∀ h en, T h = some en → T₁ h = some en ∨ ∃ i w p e d, FromLabel ent T₁ ps h en i w p e d
  low : ∀ w p h e d, (w, p) ∈ ps → (h, e, d) ∈ ent w → ¬ todo w h →
    ∃ en, T h = some en ∧ en.dist ≤ p + d
  taken : ∀ i w p, ps[i]? = some (w, p) → Taken N ent T₁ ps i w p
  nodup : (ps.map Prod.fst).Nodup
  heap : ∀ v d, L v = some d ↔ (Labelled N v ∧ ∃ en₁, T₁ v = some en₁ ∧ en₁.dist = d) ∧
    v ∉ ps.map Prod.fst
  order : ∀ v d w p en₁, L v = some d → (w, p) ∈ ps → T₁ w = some en₁ → en₁.dist ≤ d

theorem getElem?_snoc_of_lt {α : Type} {l : List α} {x y : α} {j : Nat} (hj : j < l.length)
    (h : (l ++ [x])[j]? = some y) : l[j]? = some y := by
  rwa [List.getElem?_append_left hj] at h

theorem FromLabel.snoc {h : Int} {en : Entry} {i : Nat} {w p e d : Int}
    (hf : FromLabel ent T₁ ps h en i w p e d) (q : Int × Int) :
    FromLabel ent T₁ (ps ++ [q]) h en i w p e d := by
  have hi := (List.getElem?_eq_some_iff.mp hf.taken).1
  refine ⟨by rw [List.getElem?_append_left hi]; exact hf.taken, hf.label, hf.entry, hf.better, ?_⟩
  intro j w' p' e' d' hj hget
  exact hf.first j w' p' e' d' hj (getElem?_snoc_of_lt (by omega) hget)

theorem Taken.snoc {i : Nat} {w p : Int} (ht : Taken N ent T₁ ps i w p) (hi : i ≤ ps.length)
    (q : Int × Int) : Taken N ent T₁ (ps ++ [q]) i w p := by
  refine ⟨ht.labelled, ?_, ?_, ?_⟩
  · obtain ⟨en₁, hen₁, hle, hor⟩ := ht.found
    refine ⟨en₁, hen₁, hle, hor.imp id ?_⟩
    intro hex
    obtain ⟨j, w', p', e', d', hj, hget, hrest⟩ := hex
    exact ⟨j, w', p', e', d', hj, by rw [List.getElem?_append_left (by omega)]; exact hget, hrest⟩
  · intro j w' p' e' d' hj hget
    exact ht.low j w' p' e' d' hj (getElem?_snoc_of_lt (by omega) hget)
  · intro j w' p' en₁ en₁' hj hget
    exact ht.order j w' p' en₁ en₁' hj (getElem?_snoc_of_lt (by omega) hget)

/-- A node is taken from the heap: all of its labels are to be added. -/
theorem Folding.pop (h : Folding N ent T₁ T L ps fun _ _ => False) {w d : Int} {en : Entry}
    (hL : L w = some d) (hmin : ∀ v b, L v = some b → d ≤ b) (hen : T w = some en) :
    Folding N ent T₁ T (fun y => if y = w then none else L y) (ps ++ [(w, en.dist)])
      fun w' h => w' = w ∧ h ∈ (ent w).map fun e => e.1 := by
  obtain ⟨⟨hlab, en₁, hen₁, rfl⟩, hnot⟩ := (h.heap w d).mp hL
  have hnew : Taken N ent T₁ ps ps.length w en.dist := by
    refine ⟨hlab, ⟨en₁, hen₁, ?_, ?_⟩, ?_, ?_⟩
    · obtain ⟨en', hen', hle⟩ := h.keep w en₁ hen₁
      rw [hen, Option.some.injEq] at hen'
      rw [hen']
      exact hle
    · rcases h.entry w en hen with hsame | ⟨j, w', p', e', d', hf⟩
      · rw [hen₁, Option.some.injEq] at hsame
        exact Or.inl (by rw [hsame])
      · have hj := (List.getElem?_eq_some_iff.mp hf.taken).1
        exact Or.inr ⟨j, w', p', e', d', hj, hf.taken, hf.label, by rw [hf.entry]⟩
    · intro j w' p' e' d' hj hget hlabel
      obtain ⟨en', hen', hle⟩ := h.low w' p' w e' d' (List.mem_of_getElem? hget) hlabel id
      rw [hen, Option.some.injEq] at hen'
      rw [hen']
      exact hle
    · intro j w' p' en₂ en₂' hj hget hen₂ hen₂'
      rw [hen₁, Option.some.injEq] at hen₂
      rw [← hen₂]
      exact h.order w en₁.dist w' p' en₂' hL (List.mem_of_getElem? hget) hen₂'
  refine ⟨h.keep, ?_, ?_, ?_, ?_, ?_, ?_⟩
  · intro v en' hen'
    rcases h.entry v en' hen' with hsame | ⟨i, w', p', e', d', hf⟩
    · exact Or.inl hsame
    · exact Or.inr ⟨i, w', p', e', d', hf.snoc _⟩
  · intro w' p' h' e' d' hmem hlabel htodo
    rcases List.mem_append.mp hmem with hmem | hmem
    · exact h.low w' p' h' e' d' hmem hlabel id
    · obtain ⟨rfl, rfl⟩ : w' = w ∧ p' = en.dist := by simpa using hmem
      exact absurd ⟨rfl, List.mem_map.mpr ⟨_, hlabel, rfl⟩⟩ htodo
  · intro i w' p' hget
    by_cases hi : i < ps.length
    · exact (h.taken i w' p' (getElem?_snoc_of_lt hi hget)).snoc (le_of_lt hi) _
    · have hi' : i = ps.length := by
        have := (List.getElem?_eq_some_iff.mp hget).1
        rw [List.length_append, List.length_singleton] at this
        omega
      subst hi'
      rw [List.getElem?_concat_length, Option.some.injEq, Prod.mk.injEq] at hget
      rw [← hget.1, ← hget.2]
      exact hnew.snoc (le_refl _) _
  · rw [List.map_append, List.nodup_append]
    refine ⟨h.nodup, by simp, ?_⟩
    intro a ha b hb
    simp only [List.map_cons, List.map_nil, List.mem_singleton] at hb
    rintro rfl
    exact hnot (hb ▸ ha)
  · intro v b
    rw [List.map_append, List.mem_append]
    simp only [List.map_cons, List.map_nil, List.mem_singleton]
    by_cases hvw : v = w
    · simp [hvw]
    · rw [if_neg hvw, h.heap v b]
      simp [hvw]
  · intro v b w' p' en₂ hb hmem hen₂
    split_ifs at hb with hvw
    rcases List.mem_append.mp hmem with hmem | hmem
    · exact h.order v b w' p' en₂ hb hmem hen₂
    · obtain ⟨rfl, rfl⟩ : w' = w ∧ p' = en.dist := by simpa using hmem
      rw [hen₁, Option.some.injEq] at hen₂
      rw [← hen₂]
      exact hmin v b hb

/-- The labels of a node name each hub once. -/
theorem CutData.label_unique (hd : CutData G n H N ups ent) {w h e d e' d' : Int}
    (hl : (h, e, d) ∈ ent w) (hl' : (h, e', d') ∈ ent w) : e = e' ∧ d = d' := by
  have hnodup : ((ent w).map fun e => e.1).Nodup := (hd.sorted w).imp ne_of_lt
  have := List.inj_on_of_nodup_map hnodup hl hl' rfl
  simpa using this

/-- The label `(h, e, d)` of the node that was taken last is a shorter way. -/
theorem Folding.improve (hd : CutData G n H N ups ent) {w p h e d : Int}
    {post : List (Int × Int × Int)} (hlabel : (h, e, d) ∈ ent w)
    (hf : Folding N ent T₁ T L (ps ++ [(w, p)])
      fun w' h' => w' = w ∧ h' ∈ ((h, e, d) :: post).map fun e => e.1)
    (hbetter : Better T h (p + d)) :
    Folding N ent T₁ (put T h ⟨p + d, e, w * (-1) - 2⟩) L (ps ++ [(w, p)])
      fun w' h' => w' = w ∧ h' ∈ post.map fun e => e.1 := by
  have hput : ∀ y, y ≠ h → put T h ⟨p + d, e, w * (-1) - 2⟩ y = T y := fun y hy => if_neg hy
  have hself : put T h ⟨p + d, e, w * (-1) - 2⟩ h = some ⟨p + d, e, w * (-1) - 2⟩ := if_pos rfl
  have hlow : ∀ y en b, T y = some en → en.dist ≤ b →
      ∃ en', put T h ⟨p + d, e, w * (-1) - 2⟩ y = some en' ∧ en'.dist ≤ b := by
    intro y en b hen hle
    by_cases hyh : y = h
    · subst hyh
      exact ⟨_, hself, le_trans (le_of_lt (hbetter en hen)) hle⟩
    · exact ⟨en, by rw [hput y hyh, hen], hle⟩
  -- the node that was taken last is none of the earlier ones
  have hnot : ∀ w' p', (w', p') ∈ ps → w' ≠ w := by
    intro w' p' hmem heq
    have hnd := hf.nodup
    rw [List.map_append, List.nodup_append] at hnd
    exact hnd.2.2 w' (List.mem_map.mpr ⟨_, hmem, rfl⟩) w (by simp) heq
  refine ⟨?_, ?_, ?_, hf.taken, hf.nodup, hf.heap, hf.order⟩
  · intro v en₁ hen₁
    obtain ⟨en, hen, hle⟩ := hf.keep v en₁ hen₁
    exact hlow v en _ hen hle
  · intro y en hen
    by_cases hyh : y = h
    · subst hyh
      rw [hself, Option.some.injEq] at hen
      refine Or.inr ⟨ps.length, w, p, e, d, List.getElem?_concat_length, hlabel, hen.symm, ?_, ?_⟩
      · intro en₁ hen₁
        obtain ⟨en', hen', hle⟩ := hf.keep y en₁ hen₁
        exact lt_of_lt_of_le (hbetter en' hen') hle
      · intro j w' p' e' d' hj hget hlabel'
        have hmem := List.mem_of_getElem? (getElem?_snoc_of_lt hj hget)
        obtain ⟨en', hen', hle⟩ := hf.low w' p' y e' d' (List.mem_append_left _ hmem) hlabel'
          (fun htodo => hnot w' p' hmem htodo.1)
        exact lt_of_lt_of_le (hbetter en' hen') hle
    · rw [hput y hyh] at hen
      exact hf.entry y en hen
  · intro w' p' y e' d' hmem hlabel' htodo
    by_cases hcur : w' = w ∧ y = h
    · obtain ⟨rfl, rfl⟩ := hcur
      have hp : p' = p := by
        rcases List.mem_append.mp hmem with hold | hnew
        · exact absurd rfl (hnot w' p' hold)
        · simpa using hnew
      rw [hself, hp, (hd.label_unique hlabel hlabel').2]
      exact ⟨_, rfl, le_refl _⟩
    · obtain ⟨en, hen, hle⟩ := hf.low w' p' y e' d' hmem hlabel' (by
        rintro ⟨rfl, hy⟩
        rcases List.mem_cons.mp hy with hyh | hpost
        · exact hcur ⟨rfl, hyh⟩
        · exact htodo ⟨rfl, hpost⟩)
      exact hlow y en _ hen hle

/-- A label that is no shorter way changes nothing. -/
theorem Folding.skip (hd : CutData G n H N ups ent) {w p h e d : Int}
    {post : List (Int × Int × Int)} {en : Entry} (hlabel : (h, e, d) ∈ ent w)
    (hf : Folding N ent T₁ T L (ps ++ [(w, p)])
      fun w' h' => w' = w ∧ h' ∈ ((h, e, d) :: post).map fun e => e.1)
    (hen : T h = some en) (hle : en.dist ≤ p + d) :
    Folding N ent T₁ T L (ps ++ [(w, p)])
      fun w' h' => w' = w ∧ h' ∈ post.map fun e => e.1 := by
  refine ⟨hf.keep, hf.entry, ?_, hf.taken, hf.nodup, hf.heap, hf.order⟩
  intro w' p' y e' d' hmem hlabel' htodo
  by_cases hcur : w' = w ∧ y = h
  · obtain ⟨rfl, rfl⟩ := hcur
    have hp : p' = p := by
      rcases List.mem_append.mp hmem with hold | hnew
      · have hnd := hf.nodup
        rw [List.map_append, List.nodup_append] at hnd
        exact absurd rfl (hnd.2.2 w' (List.mem_map.mpr ⟨_, hold, rfl⟩) w' (by simp))
      · simpa using hnew
    rw [hp, ← (hd.label_unique hlabel hlabel').2]
    exact ⟨en, hen, hle⟩
  · exact hf.low w' p' y e' d' hmem hlabel' (by
      rintro ⟨rfl, hy⟩
      rcases List.mem_cons.mp hy with hyh | hpost
      · exact hcur ⟨rfl, hyh⟩
      · exact htodo ⟨rfl, hpost⟩)

/-! ## The loop over the nodes with labels -/

theorem foldLabel_spec (hd : CutData G n H N ups ent) {t : TempLabels} {w : Nat} (hw : w < n)
    {p : Int} {pre post : List (Int × Int × Int)} {x : Int × Int × Int}
    (hent : ent (w : Int) = pre ++ x :: post) (ht : t.Holds T)
    (hf : Folding N ent T₁ T L (ps ++ [((w : Int), p)])
      fun w' h' => w' = (w : Int) ∧ h' ∈ (x :: post).map fun e => e.1) :
    ∃ t' T', foldLabel N w p t ((rowStart (labelTable n ent) w + pre.length : Nat) : Int) = .ok t' ∧
      t'.Holds T' ∧ Folding N ent T₁ T' L (ps ++ [((w : Int), p)])
        fun w' h' => w' = (w : Int) ∧ h' ∈ post.map fun e => e.1 := by
  obtain ⟨h, e, d⟩ := x
  have hget : (ent (w : Int))[pre.length]? = some (h, e, d) := by
    rw [hent]
    simp
  have hlabel : (h, e, d) ∈ ent (w : Int) := List.mem_of_getElem? hget
  have hnode := rd_column hd.arrays.node hw hget
  have hedge := rd_column hd.arrays.edge hw hget
  have hdist := rd_column hd.arrays.dist hw hget
  rw [← Nat.cast_add] at hnode hedge hdist
  have hh := hd.hub w h e d hlabel
  cases hT : T h with
  | none =>
    obtain ⟨idx, hidx, hneg, hinsert⟩ := ht.absent hT (lt_of_lt_of_le hh.2 hd.small)
    obtain ⟨t', ht', hholds⟩ := hinsert ⟨p + d, e, w * (-1) - 2⟩
    refine ⟨t', _, ?_, hholds, hf.improve hd hlabel ?_⟩
    · simp only [foldLabel, HubLNodes.getLabelNode, HubLNodes.getLabelEdge, HubLNodes.getLabelDist,
        hnode, hedge, hdist, ok_bind, hidx, if_pos hneg, ht']
    · intro en hen
      rw [hT] at hen
      simp at hen
  | some en =>
    obtain ⟨idx, hidx, hnn, hdist', _, _, hupdate⟩ := ht.present hT
    by_cases hlt : p + d < en.dist
    · obtain ⟨t', ht', hholds⟩ := hupdate ⟨p + d, e, w * (-1) - 2⟩
      refine ⟨t', _, ?_, hholds, hf.improve hd hlabel ?_⟩
      · simp only [foldLabel, HubLNodes.getLabelNode, HubLNodes.getLabelEdge,
          HubLNodes.getLabelDist, hnode, hedge, hdist, ok_bind, hidx, if_neg (not_lt.mpr hnn),
          hdist', if_pos hlt, ht']
      · intro en' hen'
        rw [hT, Option.some.injEq] at hen'
        rw [← hen']
        exact hlt
    · refine ⟨t, T, ?_, ht, hf.skip hd hlabel hT (not_lt.mp hlt)⟩
      simp only [foldLabel, HubLNodes.getLabelNode, HubLNodes.getLabelDist, hnode, hdist, ok_bind,
        hidx, if_neg (not_lt.mpr hnn), hdist', if_neg hlt, pure_eq_ok]

theorem expandLabels_spec (hd : CutData G n H N ups ent) {s : Search} {M : Int → Option Int}
    (hnode : ∀ v en, T₁ v = some en → 0 ≤ v ∧ v < n) (hs : Represents s T M L)
    (hf : Folding N ent T₁ T L ps fun _ _ => False) (hne : s.labelHeap.isEmpty = false) :
    ∃ s' T' w p, expandLabels N s = .ok s' ∧
      Represents s' T' M (fun y => if y = w then none else L y) ∧
      Folding N ent T₁ T' (fun y => if y = w then none else L y) (ps ++ [(w, p)])
        (fun _ _ => False) ∧ (L w).isSome ∧ 0 ≤ w ∧ w < n := by
  obtain ⟨w, d, labelHeap', hnext, hL, hmin, hheap'⟩ := DistanceHeap.getNext_spec hs.labelHeap hne
  obtain ⟨⟨_, en₁, hen₁, rfl⟩, _⟩ := (hf.heap w d).mp hL
  obtain ⟨hw0, hw1⟩ := hnode w en₁ hen₁
  obtain ⟨en, hen, _⟩ := hf.keep w en₁ hen₁
  obtain ⟨v, rfl⟩ : ∃ v : Nat, w = v := ⟨w.toNat, by omega⟩
  obtain ⟨hoff, hoff'⟩ := hd.arrays.offset (v := v) (by omega)
  obtain ⟨idx, hidx, _, hdist, _⟩ := hs.labels.present hen
  obtain ⟨t', hfold, T', ht', hf'⟩ := foldlM_row (l := ent (v : Int))
    (f := foldLabel N v en.dist)
    (P := fun pre t => ∃ T', t.Holds T' ∧ ∀ post, ent (v : Int) = pre ++ post →
      Folding N ent T₁ T' (fun y => if y = (v : Int) then none else L y)
        (ps ++ [((v : Int), en.dist)])
        fun w' h' => w' = (v : Int) ∧ h' ∈ post.map fun e => e.1)
    (rowStart (labelTable n ent) v) (b := s.labels)
    ⟨T, hs.labels, by
      intro post heq
      rw [List.nil_append] at heq
      rw [← heq]
      exact hf.pop hL hmin hen⟩ (by
      intro pre x post t hent hP
      obtain ⟨T', ht', hf'⟩ := hP
      obtain ⟨t'', T'', hrun, ht'', hf''⟩ := foldLabel_spec hd (w := v) (by omega) hent ht'
        (hf' (x :: post) hent)
      refine ⟨t'', hrun, T'', ht'', ?_⟩
      intro post' heq
      rw [hent, List.append_assoc] at heq
      have hpost := List.append_cancel_left heq
      simp only [List.singleton_append, List.cons.injEq, true_and] at hpost
      rw [← hpost]
      exact hf'')
  refine ⟨{ s with labelHeap := labelHeap', labels := t' }, T', v, en.dist, ?_,
    ⟨ht', hs.heap, hheap'⟩, ?_, by rw [hL]; rfl, hw0, hw1⟩
  · rw [Nat.cast_add] at hfold
    simp only [expandLabels, hnext, ok_bind, hidx, hdist, hoff, hoff', hfold, pure_eq_ok]
  · have := hf' [] (by simp)
    simpa using this

theorem foldAll_spec (hd : CutData G n H N ups ent) {s : Search} {M : Int → Option Int}
    (hnode : ∀ v en, T₁ v = some en → 0 ≤ v ∧ v < n) (hs : Represents s T M L)
    (hf : Folding N ent T₁ T L ps fun _ _ => False) :
    ∃ F s' T' ps', (∀ fuel, F ≤ fuel → whileLoop (fun s : Search => return !s.labelHeap.isEmpty)
        (expandLabels N) fuel s = .ok s') ∧
      Represents s' T' M (fun _ => none) ∧
      Folding N ent T₁ T' (fun _ => none) ps' (fun _ _ => False) := by
  obtain ⟨s', k, hrun, ⟨T', L', ps', hs', hf', _⟩, hend⟩ := whileLoop_bounded
    (c := fun s : Search => return !s.labelHeap.isEmpty) (f := expandLabels N)
    (I := fun k s => ∃ T L ps, Represents s T M L ∧ Folding N ent T₁ T L ps (fun _ _ => False) ∧
      (inHeap n L).card = k)
    (fun k s _ => ⟨_, rfl⟩) (by
      intro k s hI hguard
      obtain ⟨T, L, ps, hs, hf, rfl⟩ := hI
      obtain ⟨s', T', w, p, hrun, hs', hf', hw, hw0, hw1⟩ :=
        expandLabels_spec hd hnode hs hf (by simpa using hguard)
      refine ⟨s', _, hrun, ⟨T', _, _, hs', hf', rfl⟩, ?_⟩
      obtain ⟨v, rfl⟩ : ∃ v : Nat, w = v := ⟨w.toNat, by omega⟩
      apply Finset.card_lt_card
      rw [Finset.ssubset_iff_of_subset]
      · refine ⟨v, ?_, ?_⟩
        · rw [inHeap, Finset.mem_filter, Finset.mem_range]
          exact ⟨by omega, hw⟩
        · simp [inHeap]
      · intro y hy
        rw [inHeap, Finset.mem_filter] at hy ⊢
        refine ⟨hy.1, ?_⟩
        have := hy.2
        split_ifs at this with hyv
        · simp at this
        · exact this)
    _ _ s ⟨T, L, ps, hs, hf, rfl⟩ (le_refl _)
  have hempty : s'.labelHeap.isEmpty = true := by simpa using hend
  obtain rfl : L' = fun _ => none := funext ((DistanceHeap.isEmpty_iff hs'.labelHeap).mp hempty)
  exact ⟨_, s', T', ps', fun fuel hfuel => whileLoop_mono hrun hfuel, hs', hf'⟩

/-! ## Both loops -/

/-- The temporary labels of `x`: `T₁` is the table after the search and `ps` are
the nodes whose labels were added to it. -/
structure Collected (H : HubLEdges) (N : HubLNodes) (ups : Int → List Int) (n : Nat)
    (ent : Int → List (Int × Int × Int)) (x : Int) (T₁ T : Int → Option Entry)
    (ps : List (Int × Int)) : Prop where
  explored : ∃ L, Explored H N ups n x T₁ L
  folding : Folding N ent T₁ T (fun _ => none) ps fun _ _ => False

theorem calcTempLabels_spec (hd : CutData G n H N ups ent) {heap labelHeap : DistanceHeap}
    {M₀ L₀ : Int → Option Int} {t : TempLabels} {x : Int} (hx0 : 0 ≤ x) (hx1 : x < n)
    (hx : ¬ Labelled N x) (hheap : heap.Holds M₀) (hlabelHeap : labelHeap.Holds L₀)
    (ht : t.Cleared) :
    ∃ F heap' labelHeap' t' T₁ T ps,
      (∀ fuel, F ≤ fuel →
        calcTempLabels fuel H N heap labelHeap t x = .ok (heap', labelHeap', t')) ∧
      heap'.Holds (fun _ => none) ∧ labelHeap'.Holds (fun _ => none) ∧ t'.Holds T ∧
      Collected H N ups n ent x T₁ T ps := by
  have hmax : x < MAX_VALUE := lt_of_lt_of_le hx1 hd.small
  obtain ⟨t₀, htail, ht₀⟩ := ht.insertTail hmax ⟨0, -1, -1⟩
  obtain ⟨heap₀, hadd, hheap₀⟩ := DistanceHeap.add_spec (DistanceHeap.reset_holds hheap) (d := 0)
    hmax (by simp)
  have hstart : ∀ v en, put (fun _ => none) x ⟨0, -1, -1⟩ v = some en →
      v = x ∧ en = ⟨0, -1, -1⟩ := by
    intro v en hen
    rw [put] at hen
    split_ifs at hen with hvx
    exact ⟨hvx, (Option.some.injEq _ _ ▸ hen).symm⟩
  obtain ⟨F, s, T₁, L, hrun, hs, hexp⟩ := explore_spec hd (x := x)
    (s := { heap := heap₀, labelHeap := labelHeap.reset, labels := t₀, maxNumOfLabels := 0 })
    ⟨ht₀, hheap₀, DistanceHeap.reset_holds hlabelHeap⟩ (by
      refine ⟨if_pos rfl, ?_, ?_, ?_, ?_, ?_, ?_⟩
      · intro v en hen
        rw [(hstart v en hen).1]
        exact ⟨hx0, hx1⟩
      · intro v en hen
        rw [(hstart v en hen).1, (hstart v en hen).2]
        exact Walk.nil x
      · intro v en hen hvx
        exact absurd (hstart v en hen).1 hvx
      · intro u en e v l hen _ hM
        rw [(hstart u en hen).1] at hM
        simp at hM
      · intro v d hM
        split_ifs at hM with hvx
        rw [Option.some.injEq] at hM
        rw [hvx]
        exact ⟨hx, _, if_pos rfl, hM⟩
      · intro v d
        constructor
        · intro hL
          simp at hL
        · intro hex
          obtain ⟨hv, en, hen, _⟩ := hex
          rw [(hstart v en hen).1] at hv
          exact absurd hv hx)
  have hnothing : Folding N ent T₁ T₁ L [] fun _ _ => False := by
    refine ⟨fun v en₁ hen₁ => ⟨en₁, hen₁, le_refl _⟩, fun h en hen => Or.inl hen, by simp,
      by simp, by simp, ?_, by simp⟩
    intro v d
    rw [hexp.labels v d]
    simp
  obtain ⟨F', s', T, ps, hrun', hs', hf⟩ := foldAll_spec hd hexp.node
    (s := { s with labels := s.labels.makeSpace s.maxNumOfLabels })
    ⟨hs.labels.makeSpace _, hs.heap, hs.labelHeap⟩ hnothing
  refine ⟨F + F', s'.heap, s'.labelHeap, s'.labels, T₁, T, ps, ?_, hs'.heap, hs'.labelHeap,
    hs'.labels, ⟨L, hexp⟩, hf⟩
  intro fuel hfuel
  simp only [calcTempLabels, htail, ok_bind, hadd, hrun fuel (by omega), hrun' fuel (by omega)]
  rfl

namespace Collected

variable {x : Int}

/-- Every node with labels that the search found was taken. -/
theorem exists_taken (h : Collected H N ups n ent x T₁ T ps) {w : Int} {en₁ : Entry}
    (hen₁ : T₁ w = some en₁) (hw : Labelled N w) : ∃ p, (w, p) ∈ ps ∧ p ≤ en₁.dist := by
  have hmem : w ∈ ps.map Prod.fst := by
    by_contra hnot
    have := (h.folding.heap w en₁.dist).mpr ⟨⟨hw, en₁, hen₁, rfl⟩, hnot⟩
    simp at this
  obtain ⟨⟨w', p⟩, hp, rfl⟩ := List.mem_map.mp hmem
  obtain ⟨i, hi⟩ := List.mem_iff_getElem?.mp hp
  obtain ⟨en₂, hen₂, hle, _⟩ := (h.folding.taken i w' p hi).found
  have heq : en₁ = en₂ := Option.some.inj (hen₁.symm.trans hen₂)
  exact ⟨p, hp, heq ▸ hle⟩

/-- The distance at which a node was taken is the length of a way. -/
theorem taken_walk (hd : CutData G n H N ups ent) (h : Collected H N ups n ent x T₁ T ps) :
    ∀ (i : Nat) (w p : Int), ps[i]? = some (w, p) → Walk G x w p := by
  obtain ⟨L, hexp⟩ := h.explored
  intro i
  induction i using Nat.strong_induction_on with
  | _ i ih =>
    intro w p hget
    obtain ⟨en₁, hen₁, _, hor⟩ := (h.folding.taken i w p hget).found
    rcases hor with rfl | ⟨j, w', p', e', d', hj, hget', hlabel, rfl⟩
    · exact hd.stored_walk (hexp.dist w en₁ hen₁).1
    · exact (ih j hj w' p' hget').append (hd.exact w' w e' d' hlabel).1

theorem walk (hd : CutData G n H N ups ent) (h : Collected H N ups n ent x T₁ T ps) {v : Int}
    {en : Entry} (hen : T v = some en) : Walk G x v en.dist := by
  obtain ⟨L, hexp⟩ := h.explored
  rcases h.folding.entry v en hen with hen₁ | ⟨i, w, p, e, d, hf⟩
  · exact hd.stored_walk (hexp.dist v en hen₁).1
  · rw [hf.entry]
    exact (h.taken_walk hd i w p hf.taken).append (hd.exact w v e d hf.label).1

theorem node (hd : CutData G n H N ups ent) (h : Collected H N ups n ent x T₁ T ps) {v : Int}
    {en : Entry} (hen : T v = some en) : 0 ≤ v ∧ v < n := by
  obtain ⟨L, hexp⟩ := h.explored
  rcases h.folding.entry v en hen with hen₁ | ⟨i, w, p, e, d, hf⟩
  · exact hexp.node v en hen₁
  · exact hd.hub w v e d hf.label

/-- No way over stored edges is shorter than the entry of its end. -/
theorem le_stored (h : Collected H N ups n ent x T₁ T ps) {v a : Int}
    (hw : Walk (Stored H N ups) x v a) : ∃ en, T v = some en ∧ en.dist ≤ a := by
  obtain ⟨L, hexp⟩ := h.explored
  obtain ⟨en₁, hen₁⟩ := hexp.found v a hw
  obtain ⟨en, hen, hle⟩ := h.folding.keep v en₁ hen₁
  have := (hexp.dist v en₁ hen₁).2 a hw
  exact ⟨en, hen, by omega⟩

/-- No way over stored edges and a label is shorter than the entry of its end. -/
theorem le_label (h : Collected H N ups n ent x T₁ T ps) {w a g e d : Int}
    (hw : Walk (Stored H N ups) x w a) (hlab : Labelled N w) (hlabel : (g, e, d) ∈ ent w) :
    ∃ en, T g = some en ∧ en.dist ≤ a + d := by
  obtain ⟨L, hexp⟩ := h.explored
  obtain ⟨en₁, hen₁⟩ := hexp.found w a hw
  obtain ⟨p, hp, hple⟩ := h.exists_taken hen₁ hlab
  obtain ⟨en, hen, hle⟩ := h.folding.low w p g e d hp hlabel id
  have := (hexp.dist w en₁ hen₁).2 a hw
  exact ⟨en, hen, by omega⟩

end Collected

end HubLRouter

end SeaRouter
