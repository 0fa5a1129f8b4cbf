import SeaRouter.Router.DijkstraRouter
import SeaRouter.Router.SameContents
import SeaRouter.Router.Selection

/-!
# Requests on a router that was used before

The routers keep their data structures between the requests.  `reset` and
`calcTempLabels` of the hub label router do not restore all of them: the arrays of a
stack keep their elements, those of a heap all but the ids, and every array keeps
the length to which it has grown.  A request writes what it reads before it reads it.

* `route_agree` compares a request on two routers: the parts of it are taken in
  order, and from related data structures each ends alike.
* `Interrupted` is what an exception leaves of a router, and `Used` are the routers
  after any sequence of calls.
* `route_eq_new` is the result for both routers.  The arrays of the Dijkstra router are
  filled again before a search, so that it is the same as on a new router.
-/

namespace SeaRouter

open Java

namespace HubLRouter

open DistanceHeap (IsId)
open TempLabels (IsInfo)

variable {H : HubLEdges} {N : HubLNodes}

/-- The edges and the labels of a node have the ids of nodes, which are indices of
arrays. -/
structure NodeIds (H : HubLEdges) (N : HubLNodes) : Prop where
  levels : (N.levels.length : Int) ≤ MAX_VALUE
  dest : ∀ v first last i e w, N.getEdgeOffset v = .ok first → N.getEdgeOffset (v + 1) = .ok last →
    i ∈ indices first last → N.getEdge i = .ok e → H.getDest e = .ok w → w < MAX_VALUE
  labelNode : ∀ v first last i w, N.getLabelOffset v = .ok first →
    N.getLabelOffset (v + 1) = .ok last → i ∈ indices first last → N.getLabelNode i = .ok w →
    w < MAX_VALUE

theorem NodeIds.isId (hd : NodeIds H N) {v : Int} {b : Bool} (h : N.nodeHasLabels v = .ok b) :
    IsId v := by
  unfold HubLNodes.nodeHasLabels at h
  rw [bind_eq_ok] at h
  obtain ⟨lvl, hlvl, _⟩ := h
  obtain ⟨h0, h1⟩ := rd_bounds hlvl
  exact ⟨h0, lt_of_lt_of_le h1 hd.levels⟩

/-- The data that the router gets from the calculation of the labels, where no edges
are stored for a node with labels. -/
theorem CutData.nodeIds {G : Int → Int → Int → Prop} {n : Nat} {ups : Int → List Int}
    {ent : Int → List (Int × Int × Int)} (h : CutData G n H N ups ent)
    (hups : ∀ v, Labelled N v → ups v = []) : NodeIds H N where
  levels := by
    rw [h.arrays.levels]
    exact h.small
  dest := by
    intro v first last i e w hfirst hlast hi he hw
    have hlen : (edgeTable n ups).length = n := by simp [edgeTable]
    have hoff := h.rows.length
    have hv := rd_bounds hfirst
    have hv' := rd_bounds hlast
    obtain ⟨k, rfl⟩ : ∃ k : Nat, v = k := ⟨v.toNat, by omega⟩
    obtain ⟨h1, h2, hget⟩ := h.edges_offset (v := k) (by omega)
    rw [hfirst, Except.ok.injEq] at h1
    rw [hlast, Except.ok.injEq] at h2
    obtain ⟨hlo, hhi⟩ := mem_indices.mp hi
    obtain ⟨j, rfl⟩ : ∃ j : Nat, i = (rowStart (edgeTable n ups) k + j : Nat) :=
      ⟨(i - first).toNat, by omega⟩
    obtain ⟨e', hj⟩ : ∃ e', (ups k)[j]? = some e' := ⟨_, List.getElem?_eq_getElem (by omega)⟩
    have he' := hget j e' hj
    rw [he, Except.ok.injEq] at he'
    have hmem : e ∈ ups k := he' ▸ List.mem_of_getElem? hj
    have hlow : ¬ Labelled N k := by
      intro hlab
      rw [hups k hlab] at hmem
      simp at hmem
    obtain ⟨w', l, hdest, _, _, _, _, hn⟩ := h.edge k e hlow hmem
    rw [hw, Except.ok.injEq] at hdest
    have := h.small
    omega
  labelNode := by
    intro v first last i w hfirst hlast hi hw
    have hlen : (labelTable n ent).length = n := by simp [labelTable]
    have hoff := h.arrays.node.length
    rw [List.length_map] at hoff
    have hv := rd_bounds hfirst
    have hv' := rd_bounds hlast
    obtain ⟨k, rfl⟩ : ∃ k : Nat, v = k := ⟨v.toNat, by omega⟩
    have hk : k < n := by omega
    obtain ⟨h1, h2⟩ := h.arrays.offset hk
    rw [hfirst, Except.ok.injEq] at h1
    rw [hlast, Except.ok.injEq] at h2
    obtain ⟨hlo, hhi⟩ := mem_indices.mp hi
    obtain ⟨j, rfl⟩ : ∃ j : Nat, i = (rowStart (labelTable n ent) k : Int) + j :=
      ⟨(i - first).toNat, by omega⟩
    obtain ⟨⟨x, e, d⟩, hj⟩ : ∃ en, (ent k)[j]? = some en := ⟨_, List.getElem?_eq_getElem (by omega)⟩
    rw [HubLNodes.getLabelNode, rd_column h.arrays.node hk hj, Except.ok.injEq] at hw
    have hn := (h.hub k x e d (List.mem_of_getElem? hj)).2
    have := h.small
    omega

/-! ## Temporary labels -/

/-- The two searches are at the same point. -/
structure SameSearch (s s' : Search) : Prop where
  heap : s.heap.Same s'.heap
  labelHeap : s.labelHeap.Same s'.labelHeap
  labels : s.labels.Same [] s'.labels
  maxNumOfLabels : s'.maxNumOfLabels = s.maxNumOfLabels

theorem isInfo_of_isId {u : Int} (hu : IsId u) : IsInfo u :=
  ⟨hu.2, by have := hu.1; unfold MAX_VALUE; omega⟩

theorem relaxEdge_agree (hd : NodeIds H N) {u : Int} (hu : IsId u) (du : Int) {i : Int}
    (hi : ∀ e w, N.getEdge i = .ok e → H.getDest e = .ok w → w < MAX_VALUE) {s s' : Search}
    (h : SameSearch s s') : Agree SameSearch (relaxEdge H N u du s i) (relaxEdge H N u du s' i) := by
  unfold relaxEdge
  apply Agree.bind_same
  intro e he
  apply Agree.bind_same
  intro v hv
  apply Agree.bind_same
  intro l _
  obtain ⟨idx, hidx, hidx', hinsert, hupdate⟩ := h.labels.put (hi e v he hv)
  rw [hidx, hidx', ok_bind, ok_bind]
  by_cases hneg : idx < 0
  · rw [if_pos hneg, if_pos hneg]
    apply Agree.bind_same
    intro b hb
    have hv := hd.isId hb
    cases b with
    | true =>
      apply Agree.bind (h.labelHeap.add hv (du + l))
      intro g g' hg
      apply Agree.bind_same
      intro stop _
      apply Agree.bind_same
      intro start _
      apply Agree.bind (hinsert hneg _ _ _ (isInfo_of_isId hu))
      intro t t' ht
      exact Agree.ok ⟨h.heap, hg, ht, by simp only [h.maxNumOfLabels]⟩
    | false =>
      apply Agree.bind (h.heap.add hv (du + l))
      intro g g' hg
      apply Agree.bind (hinsert hneg _ _ _ (isInfo_of_isId hu))
      intro t t' ht
      exact Agree.ok ⟨hg, h.labelHeap, ht, h.maxNumOfLabels⟩
  · rw [if_neg hneg, if_neg hneg, h.labels.dist_get]
    apply Agree.bind_same
    intro prevDist _
    split_ifs
    · apply Agree.bind_same
      intro b hb
      have hv := hd.isId hb
      cases b with
      | true =>
        apply Agree.bind (h.labelHeap.add hv (du + l))
        intro g g' hg
        apply Agree.bind (hupdate hneg _ _ _ (isInfo_of_isId hu))
        intro t t' ht
        exact Agree.ok ⟨h.heap, hg, ht, h.maxNumOfLabels⟩
      | false =>
        apply Agree.bind (h.heap.add hv (du + l))
        intro g g' hg
        apply Agree.bind (hupdate hneg _ _ _ (isInfo_of_isId hu))
        intro t t' ht
        exact Agree.ok ⟨hg, h.labelHeap, ht, h.maxNumOfLabels⟩
    · exact Agree.ok h

theorem expandNode_agree (hd : NodeIds H N) {s s' : Search} (h : SameSearch s s')
    (hne : s.heap.isEmpty = false) :
    Agree SameSearch (expandNode H N s) (expandNode H N s') := by
  unfold expandNode
  apply Agree.bind (h.heap.getNext hne)
  intro a b hab
  cases hab with
  | @mk u g g' hu hg =>
    obtain ⟨idx, hidx, hidx'⟩ := h.labels.getIdx hu.2
    simp only [hidx, hidx', ok_bind, h.labels.dist_get]
    apply Agree.bind_same
    intro du _
    apply Agree.bind_same
    intro first hfirst
    apply Agree.bind_same
    intro last hlast
    apply Agree.foldlM
    · exact ⟨hg, h.labelHeap, h.labels, h.maxNumOfLabels⟩
    · intro i hi s s' h
      exact relaxEdge_agree hd hu du (fun e w => hd.dest u first last i e w hfirst hlast hi) h

theorem foldLabel_agree {w : Int} (hw : IsId w) (dw : Int) {t t' : TempLabels}
    (h : t.Same [] t') {i : Int} (hi : ∀ x, N.getLabelNode i = .ok x → x < MAX_VALUE) :
    Agree (TempLabels.Same []) (foldLabel N w dw t i) (foldLabel N w dw t' i) := by
  have hinfo : IsInfo (w * (-1) - 2) := by
    obtain ⟨h0, h1⟩ := hw
    exact ⟨by unfold MAX_VALUE; omega, by omega⟩
  unfold foldLabel
  apply Agree.bind_same
  intro x hx
  obtain ⟨idx, hidx, hidx', hinsert, hupdate⟩ := h.put (hi x hx)
  rw [hidx, hidx', ok_bind, ok_bind]
  apply Agree.bind_same
  intro d _
  by_cases hneg : idx < 0
  · rw [if_pos hneg, if_pos hneg]
    apply Agree.bind_same
    intro e _
    exact hinsert hneg _ _ _ hinfo
  · rw [if_neg hneg, if_neg hneg, h.dist_get]
    apply Agree.bind_same
    intro d' _
    split_ifs
    · apply Agree.bind_same
      intro e _
      exact hupdate hneg _ _ _ hinfo
    · exact Agree.ok h

theorem expandLabels_agree (hd : NodeIds H N) {s s' : Search} (h : SameSearch s s')
    (hne : s.labelHeap.isEmpty = false) :
    Agree SameSearch (expandLabels N s) (expandLabels N s') := by
  unfold expandLabels
  apply Agree.bind (h.labelHeap.getNext hne)
  intro a b hab
  cases hab with
  | @mk w g g' hw hg =>
    obtain ⟨idx, hidx, hidx'⟩ := h.labels.getIdx hw.2
    simp only [hidx, hidx', ok_bind, h.labels.dist_get]
    apply Agree.bind_same
    intro dw _
    apply Agree.bind_same
    intro last hlast
    apply Agree.bind_same
    intro first hfirst
    apply Agree.bind (Agree.foldlM (indices first last) h.labels ?_)
    · intro t t' ht
      exact Agree.ok ⟨h.heap, hg, ht, h.maxNumOfLabels⟩
    · intro i hi t t' ht
      exact foldLabel_agree hw dw ht (fun x => hd.labelNode w first last i x hfirst hlast hi)

/-- What `calcTempLabels` leaves behind. -/
def SameLabelled (a b : DistanceHeap × DistanceHeap × TempLabels) : Prop :=
  a.1.Same b.1 ∧ a.2.1.Same b.2.1 ∧ a.2.2.Same [] b.2.2

theorem calcTempLabels_agree (hd : NodeIds H N) (fuel : Nat)
    {heap heap' labelHeap labelHeap' : DistanceHeap}
    {t t' : TempLabels} (hh : heap.Equal) (hh' : heap'.Equal) (hl : labelHeap.Equal)
    (hl' : labelHeap'.Equal) (ht : t.Cleared) (ht' : t'.Cleared) {x : Int} (hx : IsId x) :
    Agree SameLabelled (calcTempLabels fuel H N heap labelHeap t x)
      (calcTempLabels fuel H N heap' labelHeap' t' x) := by
  unfold calcTempLabels
  apply Agree.bind (ht.same_insertTail ht' hx.2 ⟨by decide, by decide⟩ 0 (-1))
  intro u u' hu
  apply Agree.bind ((hh.same_reset hh').add hx 0)
  intro g g' hg
  have hstart : SameSearch
      { heap := g, labelHeap := labelHeap.reset, labels := u, maxNumOfLabels := 0 }
      { heap := g', labelHeap := labelHeap'.reset, labels := u', maxNumOfLabels := 0 } :=
    ⟨hg, hl.same_reset hl', hu, rfl⟩
  apply Agree.bind (Agree.whileLoop (R := SameSearch) ?_ ?_ fuel hstart)
  · intro s s' hs
    have hspace : SameSearch { s with labels := s.labels.makeSpace s.maxNumOfLabels }
        { s' with labels := s'.labels.makeSpace s'.maxNumOfLabels } := by
      refine ⟨hs.heap, hs.labelHeap, ?_, hs.maxNumOfLabels⟩
      rw [hs.maxNumOfLabels]
      exact hs.labels.makeSpace _
    apply Agree.bind (Agree.whileLoop (R := SameSearch) ?_ ?_ fuel hspace)
    · intro q q' hq
      exact Agree.ok ⟨hq.heap, hq.labelHeap, hq.labels⟩
    · intro q q' hq
      exact ⟨!q.labelHeap.isEmpty, rfl, by rw [hq.labelHeap.isEmpty_eq]; rfl⟩
    · intro q q' hq hguard
      exact expandLabels_agree hd hq (by simpa using hguard)
  · intro s s' hs
    exact ⟨!s.heap.isEmpty, rfl, by rw [hs.heap.isEmpty_eq]; rfl⟩
  · intro s s' hs hguard
    exact expandNode_agree hd hs (by simpa using hguard)

/-! ## The path -/

theorem tempSide_eq {l : List Int} {t t' : TempLabels} (h : t.Same l t') :
    tempSide t' = tempSide t := by
  unfold tempSide
  congr 1
  · funext idx
    exact h.label_get idx
  · funext idx
    exact h.dist_get idx

theorem getEdges_agree (fuel : Nat) (v hub : Int) {s s' : IntStack} (h : s.Same 0 s') :
    Agree (IntStack.Same 0) (getEdges fuel H N v hub s) (getEdges fuel H N v hub s') := by
  unfold getEdges
  apply Agree.bind (R := Paired (fun _ => True) (IntStack.Same 0))
  · apply Agree.whileLoop
    · intro a b hab
      cases hab with
      | @mk u s s' _ hs => exact ⟨_, rfl, rfl⟩
    · intro a b hab _
      cases hab with
      | @mk u s s' _ hs =>
        unfold getEdgesStep
        apply Agree.bind_same
        intro first _
        apply Agree.bind_same
        intro last _
        apply Agree.bind_same
        intro idx _
        apply Agree.bind_same
        intro e _
        apply Agree.bind_same
        intro w _
        apply Agree.bind (hs.push_le e)
        intro q q' hq
        exact Agree.ok (Paired.mk trivial hq)
    · exact Paired.mk trivial h
  · intro a b hab
    cases hab with
    | mk _ hs => exact Agree.ok hs

theorem labelEdges_agree (fuel : Nat) (v hub idx : Int) {s s' : IntStack} (h : s.Same 0 s') :
    Agree (IntStack.Same 0) (labelEdges fuel H N s v hub idx) (labelEdges fuel H N s' v hub idx) := by
  unfold labelEdges
  split_ifs
  · apply Agree.bind_same
    intro e _
    apply Agree.bind_same
    intro w _
    apply Agree.bind (h.push_le e)
    intro q q' hq
    exact getEdges_agree fuel w hub hq
  · exact Agree.ok h

/-- A chain of `addInfo` is followed in both in the same way. -/
theorem addEdges_agree (fuel : Nat) {l : List Int} {t t' : TempLabels} (ht : t.Same l t')
    {v : Int} (hv : v < MAX_VALUE) (stopId : Int) {s s' : IntStack} (h : s.Same 0 s') :
    Agree (IntStack.Same 0) (addEdges fuel t s v stopId) (addEdges fuel t' s' v stopId) := by
  unfold addEdges
  apply Agree.bind (R := Paired (fun u : Int => u < MAX_VALUE) (IntStack.Same 0))
  · apply Agree.whileLoop
    · intro a b hab
      cases hab with
      | @mk u s s' _ hs => exact ⟨_, rfl, rfl⟩
    · intro a b hab _
      cases hab with
      | @mk u s s' hu hs =>
        obtain ⟨idx, hidx, hidx'⟩ := ht.getIdx hu
        simp only [climbStep, hidx, hidx', ok_bind, ht.edge_get, ht.addInfo_get]
        apply Agree.bind_same
        intro e _
        apply Agree.bind (hs.push_le e)
        intro q q' hq
        apply Agree.bind_same
        intro info hinfo
        exact Agree.ok (Paired.mk (ht.isInfo hinfo).1 hq)
    · exact Paired.mk hv (IntStack.same_new (by decide))
  · intro a b hab
    cases hab with
    | @mk u tmp tmp' _ htmp =>
      apply Agree.bind (R := fun a b : IntStack × IntStack => a.1.Same 0 b.1 ∧ a.2.Same 0 b.2)
      · apply Agree.whileLoop
        · intro a b hab
          exact ⟨!a.1.isEmpty, rfl, by rw [hab.1.isEmpty_eq]; rfl⟩
        · intro a b hab hguard
          unfold moveStep
          apply Agree.bind ((hab.1.nonempty (by simpa using hguard)).popFifo)
          intro c d hcd
          cases hcd with
          | @mk e q q' _ hq =>
            apply Agree.bind (hab.2.push_le e)
            intro p p' hp
            exact Agree.ok ⟨hq, hp⟩
        · exact ⟨htmp, h⟩
      · intro a b hab
        exact Agree.ok hab.2

theorem tempEdges_agree (fuel : Nat) {l : List Int} {t t' : TempLabels} (ht : t.Same l t')
    (v hub idx : Int) {s s' : IntStack} (h : s.Same 0 s') :
    Agree (IntStack.Same 0) (tempEdges fuel H N t s v hub idx)
      (tempEdges fuel H N t' s' v hub idx) := by
  unfold tempEdges
  rw [ht.addInfo_get]
  apply Agree.bind_same
  intro info hinfo
  have hi := ht.isInfo hinfo
  split_ifs
  · apply Agree.bind (addEdges_agree fuel ht hi.2 v h)
    intro q q' hq
    rw [ht.edge_get]
    apply Agree.bind_same
    intro e _
    apply Agree.bind (hq.push_le e)
    intro p p' hp
    apply Agree.bind_same
    intro w _
    exact getEdges_agree fuel w hub hp
  · exact addEdges_agree fuel ht hi.1 v h
  · exact Agree.ok h

/-- The stacks of the two routers are the same, with at least `k` nodes of the result;
the other data structures can be used by a later request. -/
structure SameStacks (k : Nat) (r r' : HubLRouter) : Prop where
  resultNodes : r.resultNodes.Same k r'.resultNodes
  edgesRight : r.edgesRight.Same 0 r'.edgesRight
  edgesLeft : r.edgesLeft.Same 0 r'.edgesLeft
  edgeCalcStack : r.edgeCalcStack.Same 0 r'.edgeCalcStack
  heap : r.heap.Equal ∧ r'.heap.Equal
  labelHeap : r.labelHeap.Equal ∧ r'.labelHeap.Equal
  left : ∃ l, r.left.Same l r'.left
  right : ∃ l, r.right.Same l r'.right

theorem SameStacks.edges {k : Nat} {r r' : HubLRouter} (h : SameStacks k r r')
    {edgesRight edgesRight' edgesLeft edgesLeft' : IntStack} (hright : edgesRight.Same 0 edgesRight')
    (hleft : edgesLeft.Same 0 edgesLeft') :
    SameStacks k { r with edgesRight := edgesRight, edgesLeft := edgesLeft }
      { r' with edgesRight := edgesRight', edgesLeft := edgesLeft' } :=
  { h with edgesRight := hright, edgesLeft := hleft }

theorem unpackLoop_agree (fuel : Nat) (pushedFirst pushedLast : Int → Run Int) {k : Nat}
    {work work' result result' : IntStack} (hwork : work.Same 0 work')
    (hresult : result.Same k result') :
    Agree (fun a b : IntStack × IntStack => a.1.Same 0 b.1 ∧ a.2.Same k b.2)
      (unpackLoop fuel H pushedFirst pushedLast work result)
      (unpackLoop fuel H pushedFirst pushedLast work' result') := by
  unfold unpackLoop
  apply Agree.whileLoop
  · intro a b hab
    exact ⟨!a.1.isEmpty, rfl, by rw [hab.1.isEmpty_eq]; rfl⟩
  · intro a b hab hguard
    unfold unpackStep
    apply Agree.bind ((hab.1.nonempty (by simpa using hguard)).pop)
    intro c d hcd
    cases hcd with
    | @mk e q q' _ hq =>
      simp only
      split_ifs
      · apply Agree.bind_same
        intro e₁ _
        apply Agree.bind (hq.push_le e₁)
        intro q₁ q₁' hq₁
        apply Agree.bind_same
        intro e₂ _
        apply Agree.bind (hq₁.push_le e₂)
        intro q₂ q₂' hq₂
        exact Agree.ok ⟨hq₂, hab.2⟩
      · apply Agree.bind_same
        intro w _
        apply Agree.bind (hab.2.push_le w)
        intro p p' hp
        exact Agree.ok ⟨hq, hp⟩
  · exact ⟨hwork, hresult⟩

theorem leftStep_agree (fuel : Nat) {k : Nat} {r r' : HubLRouter} (h : SameStacks k r r')
    (hne : r.edgesLeft.isEmpty = false) :
    Agree (SameStacks k) (leftStep fuel H r) (leftStep fuel H r') := by
  unfold leftStep
  apply Agree.bind (h.edgesLeft.nonempty hne).popFifo
  intro a b hab
  cases hab with
  | @mk e q q' _ hq =>
    apply Agree.bind (h.edgeCalcStack.push_le e)
    intro c c' hc
    apply Agree.bind (unpackLoop_agree fuel _ _ hc h.resultNodes)
    intro d d' hd
    exact Agree.ok { h with edgesLeft := hq, edgeCalcStack := hd.1, resultNodes := hd.2 }

theorem rightStep_agree (fuel : Nat) {k : Nat} {r r' : HubLRouter} (h : SameStacks k r r')
    (hne : r.edgesRight.isEmpty = false) :
    Agree (SameStacks k) (rightStep fuel H r) (rightStep fuel H r') := by
  unfold rightStep
  apply Agree.bind (h.edgesRight.nonempty hne).pop
  intro a b hab
  cases hab with
  | @mk e q q' _ hq =>
    apply Agree.bind (h.edgeCalcStack.push_le e)
    intro c c' hc
    apply Agree.bind (unpackLoop_agree fuel _ _ hc h.resultNodes)
    intro d d' hd
    exact Agree.ok { h with edgesRight := hq, edgeCalcStack := hd.1, resultNodes := hd.2 }

/-- The left side only adds nodes, so that there is one to take away after it. -/
theorem calculateRoute_agree (fuel : Nat) {r r' : HubLRouter} (h : SameStacks 0 r r')
    (start dest : Int) :
    Agree (SameStacks 0) (calculateRoute fuel H r start dest)
      (calculateRoute fuel H r' start dest) := by
  unfold calculateRoute
  apply Agree.bind (h.resultNodes.push start)
  intro q q' hq
  have hstart : SameStacks 1 { r with resultNodes := q } { r' with resultNodes := q' } :=
    { h with resultNodes := hq }
  apply Agree.bind (Agree.whileLoop (R := SameStacks 1) ?_ ?_ fuel hstart)
  · intro r₁ r₁' h₁
    apply Agree.bind h₁.resultNodes.pop
    intro a b hab
    cases hab with
    | @mk _ q q' _ hq =>
      have hpopped : SameStacks 0 { r₁ with resultNodes := q } { r₁' with resultNodes := q' } :=
        { h₁ with resultNodes := hq }
      apply Agree.bind (Agree.whileLoop (R := SameStacks 0) ?_ ?_ fuel hpopped)
      · intro r₂ r₂' h₂
        apply Agree.bind (h₂.resultNodes.push_le dest)
        intro q q' hq
        exact Agree.ok { h₂ with resultNodes := hq }
      · intro r₂ r₂' h₂
        exact ⟨!r₂.edgesRight.isEmpty, rfl, by rw [h₂.edgesRight.isEmpty_eq]; rfl⟩
      · intro r₂ r₂' h₂ hguard
        exact rightStep_agree fuel h₂ (by simpa using hguard)
  · intro r₁ r₁' h₁
    exact ⟨!r₁.edgesLeft.isEmpty, rfl, by rw [h₁.edgesLeft.isEmpty_eq]; rfl⟩
  · intro r₁ r₁' h₁ hguard
    exact leftStep_agree fuel h₁ (by simpa using hguard)

theorem finish_agree (fuel : Nat) {r r' : HubLRouter} (h : SameStacks 0 r r')
    (start dest d : Int) :
    Agree (Paired (fun _ => True) (SameStacks 0)) (finish fuel H r start dest d)
      (finish fuel H r' start dest d) := by
  unfold finish
  apply Agree.bind (calculateRoute_agree fuel h start dest)
  intro r₁ r₁' h₁
  unfold resultPath
  apply Agree.bind (R := Paired (fun _ => True) (IntStack.Same 0))
  · apply Agree.whileLoop
    · intro a b hab
      cases hab with
      | @mk path q q' _ hq => exact ⟨!q.isEmpty, rfl, by rw [← hq.isEmpty_eq]; rfl⟩
    · intro a b hab hguard
      cases hab with
      | @mk path q q' _ hq =>
        unfold pathStep
        apply Agree.bind ((hq.nonempty (by simpa using hguard)).popFifo)
        intro c d hcd
        cases hcd with
        | mk _ hp => exact Agree.ok (Paired.mk trivial hp)
    · exact Paired.mk trivial h₁.resultNodes
  · intro a b hab
    cases hab with
    | mk _ hq => exact Agree.ok (Paired.mk trivial { h₁ with resultNodes := hq })

/-! ## The request -/

/-- What a request needs of the router: nothing of the contents of its arrays. -/
structure Sane (r : HubLRouter) : Prop where
  resultNodes : 0 < r.resultNodes.sizeIncrease
  edgesRight : 0 < r.edgesRight.sizeIncrease
  edgesLeft : 0 < r.edgesLeft.sizeIncrease
  edgeCalcStack : 0 < r.edgeCalcStack.sizeIncrease
  heap : r.heap.Equal
  labelHeap : r.labelHeap.Equal
  left : r.left.clear.Cleared
  right : r.right.clear.Cleared

theorem SameStacks.sane {k : Nat} {r r' : HubLRouter} (h : SameStacks k r r') : Sane r ∧ Sane r' := by
  obtain ⟨l, hleft⟩ := h.left
  obtain ⟨l', hright⟩ := h.right
  exact ⟨⟨h.resultNodes.increase.1, h.edgesRight.increase.1, h.edgesLeft.increase.1,
      h.edgeCalcStack.increase.1, h.heap.1, h.labelHeap.1, hleft.clear.1, hright.clear.1⟩,
    ⟨h.resultNodes.increase.2, h.edgesRight.increase.2, h.edgesLeft.increase.2,
      h.edgeCalcStack.increase.2, h.heap.2, h.labelHeap.2, hleft.clear.2, hright.clear.2⟩⟩

/-- The two routers after `reset`. -/
structure Fresh (r r' : HubLRouter) : Prop extends SameStacks 0 r r' where
  leftClear : r.left.Cleared ∧ r'.left.Cleared
  rightClear : r.right.Cleared ∧ r'.right.Cleared

theorem Sane.fresh_reset {r r' : HubLRouter} (h : Sane r) (h' : Sane r') :
    Fresh (reset r) (reset r') where
  resultNodes := IntStack.same_clear h.resultNodes h'.resultNodes
  edgesRight := IntStack.same_clear h.edgesRight h'.edgesRight
  edgesLeft := IntStack.same_clear h.edgesLeft h'.edgesLeft
  edgeCalcStack := IntStack.same_clear h.edgeCalcStack h'.edgeCalcStack
  heap := (h.heap.same_reset h'.heap).equal
  labelHeap := ⟨h.labelHeap, h'.labelHeap⟩
  left := ⟨[], h.left.same h'.left⟩
  right := ⟨[], h.right.same h'.right⟩
  leftClear := ⟨h.left, h'.left⟩
  rightClear := ⟨h.right, h'.right⟩

variable {r r' : HubLRouter}

theorem select2Lbl_agree (h : SameStacks 0 r r') (s t : Int) :
    Agree (Paired (fun _ => True) (SameStacks 0)) (select2Lbl N r s t) (select2Lbl N r' s t) := by
  unfold select2Lbl
  apply Agree.bind_same
  intro a _
  apply Agree.bind_same
  intro b _
  apply Agree.bind_same
  intro a' _
  apply Agree.bind_same
  intro b' _
  split_ifs
  · exact Agree.ok (Paired.mk trivial h)
  · apply Agree.bind_same
    intro best _
    exact Agree.ok (Paired.mk trivial h)

theorem selectLeftLbl_agree (hd : NodeIds H N) (fuel : Nat) (h : Fresh r r') (s : Int) {t : Int}
    (ht : IsId t) :
    Agree (Paired (fun _ => True) (SameStacks 0)) (selectLeftLbl fuel H N r s t)
      (selectLeftLbl fuel H N r' s t) := by
  unfold selectLeftLbl
  apply Agree.bind (calcTempLabels_agree hd fuel h.heap.1 h.heap.2 h.labelHeap.1 h.labelHeap.2
    h.rightClear.1 h.rightClear.2 ht)
  intro a b hab
  obtain ⟨heap, labelHeap, right⟩ := a
  obtain ⟨heap', labelHeap', right'⟩ := b
  obtain ⟨hheap, hlabelHeap, hright⟩ := hab
  simp only at hheap hlabelHeap hright
  simp only [hright.size_eq]
  apply Agree.bind_same
  intro first _
  apply Agree.bind_same
  intro last _
  split_ifs
  · exact Agree.ok (Paired.mk trivial { h.toSameStacks with
      heap := hheap.equal, labelHeap := hlabelHeap.equal, right := ⟨[], hright⟩ })
  · apply Agree.bind hright.insertTail_label
    intro label label' hlabel
    rw [tempSide_eq hlabel]
    apply Agree.bind_same
    intro best _
    exact Agree.ok (Paired.mk trivial { h.toSameStacks with
      heap := hheap.equal, labelHeap := hlabelHeap.equal, right := ⟨_, hlabel⟩ })

theorem selectRightLbl_agree (hd : NodeIds H N) (fuel : Nat) (h : Fresh r r') {s : Int} (t : Int)
    (hs : IsId s) :
    Agree (Paired (fun _ => True) (SameStacks 0)) (selectRightLbl fuel H N r s t)
      (selectRightLbl fuel H N r' s t) := by
  unfold selectRightLbl
  apply Agree.bind (calcTempLabels_agree hd fuel h.heap.1 h.heap.2 h.labelHeap.1 h.labelHeap.2
    h.leftClear.1 h.leftClear.2 hs)
  intro a b hab
  obtain ⟨heap, labelHeap, left⟩ := a
  obtain ⟨heap', labelHeap', left'⟩ := b
  obtain ⟨hheap, hlabelHeap, hleft⟩ := hab
  simp only at hheap hlabelHeap hleft
  simp only [hleft.size_eq]
  apply Agree.bind_same
  intro first _
  apply Agree.bind_same
  intro last _
  split_ifs
  · exact Agree.ok (Paired.mk trivial { h.toSameStacks with
      heap := hheap.equal, labelHeap := hlabelHeap.equal, left := ⟨[], hleft⟩ })
  · apply Agree.bind hleft.insertTail_label
    intro label label' hlabel
    rw [tempSide_eq hlabel]
    apply Agree.bind_same
    intro best _
    exact Agree.ok (Paired.mk trivial { h.toSameStacks with
      heap := hheap.equal, labelHeap := hlabelHeap.equal, left := ⟨_, hlabel⟩ })

theorem select0Lbl_agree (hd : NodeIds H N) (fuel : Nat) (h : Fresh r r') {s t : Int}
    (hs : IsId s) (ht : IsId t) :
    Agree (Paired (fun _ => True) (SameStacks 0)) (select0Lbl fuel H N r s t)
      (select0Lbl fuel H N r' s t) := by
  unfold select0Lbl
  apply Agree.bind (calcTempLabels_agree hd fuel h.heap.1 h.heap.2 h.labelHeap.1 h.labelHeap.2
    h.leftClear.1 h.leftClear.2 hs)
  intro a b hab
  obtain ⟨heap, labelHeap, left⟩ := a
  obtain ⟨heap', labelHeap', left'⟩ := b
  obtain ⟨hheap, hlabelHeap, hleft⟩ := hab
  simp only at hheap hlabelHeap hleft
  apply Agree.bind (calcTempLabels_agree hd fuel hheap.equal.1 hheap.equal.2 hlabelHeap.equal.1
    hlabelHeap.equal.2 h.rightClear.1 h.rightClear.2 ht)
  intro a b hab
  obtain ⟨heap, labelHeap, right⟩ := a
  obtain ⟨heap', labelHeap', right'⟩ := b
  obtain ⟨hheap, hlabelHeap, hright⟩ := hab
  simp only at hheap hlabelHeap hright
  simp only [hleft.size_eq, hright.size_eq]
  split_ifs
  · exact Agree.ok (Paired.mk trivial { h.toSameStacks with
      heap := hheap.equal, labelHeap := hlabelHeap.equal, left := ⟨[], hleft⟩
      right := ⟨[], hright⟩ })
  · apply Agree.bind hleft.insertTail_label
    intro left₁ left₁' hleft₁
    apply Agree.bind hright.insertTail_label
    intro right₁ right₁' hright₁
    rw [tempSide_eq hleft₁, tempSide_eq hright₁]
    apply Agree.bind_same
    intro best _
    exact Agree.ok (Paired.mk trivial { h.toSameStacks with
      heap := hheap.equal, labelHeap := hlabelHeap.equal, left := ⟨_, hleft₁⟩
      right := ⟨_, hright₁⟩ })

theorem select_agree (hd : NodeIds H N) (fuel : Nat) (hr : Sane r) (hr' : Sane r') (s t : Int) :
    Agree (Paired (fun _ => True) (SameStacks 0)) (select fuel H N r s t)
      (select fuel H N r' s t) := by
  have hfresh := hr.fresh_reset hr'
  unfold select
  apply Agree.bind_same
  intro a ha
  apply Agree.bind_same
  intro b hb
  split_ifs
  · exact select2Lbl_agree hfresh.toSameStacks s t
  · exact select0Lbl_agree hd fuel hfresh (hd.isId ha) (hd.isId hb)
  · exact selectLeftLbl_agree hd fuel hfresh s (hd.isId hb)
  · exact selectRightLbl_agree hd fuel hfresh t (hd.isId ha)

theorem extract_agree (fuel : Nat) (h : SameStacks 0 r r') (s t : Int) (best : Selection) :
    Agree (Paired (fun _ => True) (SameStacks 0)) (extract fuel H N r s t best)
      (extract fuel H N r' s t best) := by
  obtain ⟨l, hleft⟩ := h.left
  obtain ⟨l', hright⟩ := h.right
  unfold extract
  apply Agree.bind_same
  intro a _
  apply Agree.bind_same
  intro b _
  simp only
  split_ifs
  · apply Agree.bind (labelEdges_agree fuel t _ _ h.edgesRight)
    intro er er' her
    apply Agree.bind (labelEdges_agree fuel s _ _ h.edgesLeft)
    intro el el' hel
    exact finish_agree fuel (h.edges her hel) s t _
  · apply Agree.bind (tempEdges_agree fuel hleft s _ _ h.edgesLeft)
    intro el el' hel
    apply Agree.bind (tempEdges_agree fuel hright t _ _ h.edgesRight)
    intro er er' her
    exact finish_agree fuel (h.edges her hel) s t _
  · apply Agree.bind (labelEdges_agree fuel s _ _ h.edgesLeft)
    intro el el' hel
    apply Agree.bind (tempEdges_agree fuel hright t _ _ h.edgesRight)
    intro er er' her
    exact finish_agree fuel (h.edges her hel) s t _
  · apply Agree.bind (labelEdges_agree fuel t _ _ h.edgesRight)
    intro er er' her
    apply Agree.bind (tempEdges_agree fuel hleft s _ _ h.edgesLeft)
    intro el el' hel
    exact finish_agree fuel (h.edges her hel) s t _

/-- A request ends alike on any two routers. -/
theorem route_agree (hd : NodeIds H N) (fuel : Nat) (hr : Sane r) (hr' : Sane r') (s t : Int) :
    Agree (Paired (fun _ => True) (SameStacks 0)) (route fuel H N r s t)
      (route fuel H N r' s t) := by
  rw [route_eq, route_eq]
  apply Agree.bind (select_agree hd fuel hr hr' s t)
  intro a b hab
  cases hab with
  | @mk best r₁ r₁' _ h₁ =>
    simp only
    split_ifs
    · exact Agree.ok (Paired.mk trivial h₁)
    · exact extract_agree fuel h₁ s t best

/-! ## One request after the other -/

/-- The final fields of a list stay as they are. -/
def KeepsList (s s' : OrderedIntSet) : Prop :=
  s'.orderedBySorting = s.orderedBySorting ∧ s'.sizeIncrease = s.sizeIncrease

structure KeepsLabels (t t' : TempLabels) : Prop where
  label : KeepsList t.label t'.label
  dist : KeepsList t.dist t'.dist
  edge : KeepsList t.edge t'.edge
  addInfo : KeepsList t.addInfo t'.addInfo

/-- What is left of the router `r` when an exception ends a call, wherever it is thrown:
the final fields of its data structures, and that the arrays of a heap grow together.
The contents may be any. -/
structure Interrupted (r r' : HubLRouter) : Prop where
  resultNodes : r'.resultNodes.sizeIncrease = r.resultNodes.sizeIncrease
  edgesRight : r'.edgesRight.sizeIncrease = r.edgesRight.sizeIncrease
  edgesLeft : r'.edgesLeft.sizeIncrease = r.edgesLeft.sizeIncrease
  edgeCalcStack : r'.edgeCalcStack.sizeIncrease = r.edgeCalcStack.sizeIncrease
  heap : r.heap.Equal → r'.heap.Equal
  labelHeap : r.labelHeap.Equal → r'.labelHeap.Equal
  left : KeepsLabels r.left r'.left
  right : KeepsLabels r.right r'.right

theorem KeepsLabels.cleared {t t' : TempLabels} (h : KeepsLabels t t') (ht : t.clear.Cleared) :
    t'.clear.Cleared := by
  have hclear : ∀ {s s' : OrderedIntSet}, KeepsList s s' → s.clear.Holds [] → s'.clear.Holds [] := by
    intro s s' hk hs
    have hinc : 0 < s.sizeIncrease := hs.increase
    exact OrderedIntSet.clear_holds (by rw [hk.2]; exact hinc)
  exact ⟨h.label.1.trans ht.ordered, hclear h.label ht.label, hclear h.dist ht.dist,
    hclear h.edge ht.edge, hclear h.addInfo ht.addInfo⟩

theorem Sane.interrupted (h : Sane r) (hi : Interrupted r r') : Sane r' where
  resultNodes := hi.resultNodes ▸ h.resultNodes
  edgesRight := hi.edgesRight ▸ h.edgesRight
  edgesLeft := hi.edgesLeft ▸ h.edgesLeft
  edgeCalcStack := hi.edgeCalcStack ▸ h.edgeCalcStack
  heap := hi.heap h.heap
  labelHeap := hi.labelHeap h.labelHeap
  left := hi.left.cleared h.left
  right := hi.right.cleared h.right

theorem sane_new : Sane HubLRouter.new where
  resultNodes := by decide
  edgesRight := by decide
  edgesLeft := by decide
  edgeCalcStack := by decide
  heap := (DistanceHeap.new_stores 1000 (by decide)).equal
  labelHeap := (DistanceHeap.new_stores 1000 (by decide)).equal
  left := TempLabels.new_cleared.clear
  right := TempLabels.new_cleared.clear

/-- A router after any sequence of calls, each of which returned or ended with an
exception. -/
inductive Used (H : HubLEdges) (N : HubLNodes) : HubLRouter → Prop
  | start : Used H N HubLRouter.new
  | returned {r r' : HubLRouter} {fuel : Nat} {s t : Int} {result : RoutingResult} :
      Used H N r → route fuel H N r s t = .ok (result, r') → Used H N r'
  | aborted {r r' : HubLRouter} {fuel : Nat} {s t : Int} {e : Exn} :
      Used H N r → route fuel H N r s t = .error e → Interrupted r r' → Used H N r'

theorem Used.sane (hd : NodeIds H N) (h : Used H N r) : Sane r := by
  induction h with
  | start => exact sane_new
  | @returned r r' fuel s t result _ hrun ih =>
    obtain ⟨b, _, hab⟩ := (route_agree hd fuel ih sane_new s t).exists_right hrun
    cases hab with
    | mk _ h => exact h.sane.1
  | aborted _ _ hi ih => exact ih.interrupted hi

end HubLRouter

namespace DijkstraRouter

/-- What is left of the router when an exception ends a call: its arrays are final,
apart from the one of the heap, which `resetState` replaces. -/
structure Interrupted (r r' : DijkstraRouter) : Prop where
  dist : r'.currDistanceToNode.length = r.currDistanceToNode.length
  prev : r'.previousNode.length = r.previousNode.length
  touched : r'.nodeTouched.length = r.nodeTouched.length
  heap : r'.vertexHeap.heapPosition.length = r.vertexHeap.heapPosition.length

/-- A router after any sequence of calls. -/
inductive Used (g : Grid) : DijkstraRouter → Prop
  | start : Used g (new g)
  | returned {r : DijkstraRouter} {fuel : Nat} {s t : Int} {state : DijkstraRouter × Bool} :
      Used g r → search fuel g r s t = .ok state → Used g state.1
  | aborted {r r' : DijkstraRouter} {fuel : Nat} {s t : Int} {e : Exn} :
      Used g r → search fuel g r s t = .error e → Interrupted r r' → Used g r'

variable {g : Grid} {r r' : DijkstraRouter}

theorem Sized.interrupted (h : Sized g r) (hi : Interrupted r r') : Sized g r' :=
  ⟨hi.dist.trans h.dist, hi.prev.trans h.prev, hi.touched.trans h.touched, hi.heap.trans h.heap⟩

theorem Used.sized (h : Used g r) : Sized g r := by
  induction h with
  | start => exact sized_new g
  | returned _ hrun ih => exact sized_search ih hrun
  | aborted _ _ hi ih => exact ih.interrupted hi

end DijkstraRouter

/-- Earlier requests do not influence the next one: on both routers it has the same
result, or ends with the same exception, as on a new router. -/
theorem route_eq_new :
    (∀ (H : HubLEdges) (N : HubLNodes), HubLRouter.NodeIds H N →
      ∀ (r : HubLRouter), HubLRouter.Used H N r → ∀ (fuel : Nat) (s t : Int),
        (HubLRouter.route fuel H N r s t).map Prod.fst =
          (HubLRouter.route fuel H N HubLRouter.new s t).map Prod.fst) ∧
    ∀ (g : Grid) (r : DijkstraRouter), DijkstraRouter.Used g r → ∀ s t : Int,
      DijkstraRouter.route g r s t = DijkstraRouter.route g (DijkstraRouter.new g) s t := by
  constructor
  · intro H N hd r hr fuel s t
    apply (HubLRouter.route_agree hd fuel (hr.sane hd) HubLRouter.sane_new s t).map_eq
    intro a b hab
    cases hab with
    | mk _ _ => rfl
  · intro g r hr s t
    rw [DijkstraRouter.route_eq, DijkstraRouter.route_eq, hr.sized.search_eq]

namespace HubLRouter

/-- One edge of length 1, in both directions. -/
def pairEdges : HubLEdges where
  dest := [1, 0]
  dist := [1, 1]
  firstShortcutIdx := 2
  shortcutParts := []

/-- The edge of `pairEdges` from the node 0, which has no labels. -/
def pairCut : HubLNodes where
  hlLevel := 1
  levels := [0, 1]
  edgesOffset := [0, 1, 1]
  edges := [0]
  labelOffset := [0, 0, 1]
  labelNode := [1, -1]
  labelEdge := [-1, -1]
  labelDist := [0, -1]

theorem pair_nodeIds : NodeIds pairEdges pairCut where
  levels := by decide
  dest := by
    intro v first last i e w _ _ _ _ hw
    have hsmall : ∀ x ∈ pairEdges.dest, x < MAX_VALUE := by decide
    exact hsmall w (mem_of_rd hw)
  labelNode := by
    intro v first last i w _ _ _ hw
    have hsmall : ∀ x ∈ pairCut.labelNode, x < MAX_VALUE := by decide
    exact hsmall w (mem_of_rd hw)

end HubLRouter

/-- A request after one that returned and one for a node that does not exist. -/
theorem route_eq_new_pair :
    (∃ r result r', HubLRouter.route 5 HubLRouter.pairEdges HubLRouter.pairCut HubLRouter.new 0 1 =
        .ok (result, r) ∧
      HubLRouter.route 5 HubLRouter.pairEdges HubLRouter.pairCut r 0 7 =
        .error .indexOutOfBounds ∧
      HubLRouter.Interrupted r r' ∧
      (HubLRouter.route 5 HubLRouter.pairEdges HubLRouter.pairCut r' 1 0).map Prod.fst =
        (HubLRouter.route 5 HubLRouter.pairEdges HubLRouter.pairCut HubLRouter.new 1 0).map
          Prod.fst) ∧
    ∃ state, DijkstraRouter.search 3 DijkstraRouter.rowGrid
        (DijkstraRouter.new DijkstraRouter.rowGrid) 0 2 = .ok state ∧
      DijkstraRouter.route DijkstraRouter.rowGrid state.1 1 0 =
        DijkstraRouter.route DijkstraRouter.rowGrid
          (DijkstraRouter.new DijkstraRouter.rowGrid) 1 0 := by
  constructor
  · obtain ⟨⟨result, r⟩, hrun, hfail⟩ := exists_of_map_toOption
      (x := HubLRouter.route 5 HubLRouter.pairEdges HubLRouter.pairCut HubLRouter.new 0 1)
      (p := fun a => decide (HubLRouter.route 5 HubLRouter.pairEdges HubLRouter.pairCut a.2 0 7 =
        .error .indexOutOfBounds)) (by decide +kernel)
    rw [decide_eq_true_iff] at hfail
    have hi : HubLRouter.Interrupted r r := ⟨rfl, rfl, rfl, rfl, id, id,
      ⟨⟨rfl, rfl⟩, ⟨rfl, rfl⟩, ⟨rfl, rfl⟩, ⟨rfl, rfl⟩⟩,
      ⟨⟨rfl, rfl⟩, ⟨rfl, rfl⟩, ⟨rfl, rfl⟩, ⟨rfl, rfl⟩⟩⟩
    exact ⟨r, result, r, hrun, hfail, hi, route_eq_new.1 _ _ HubLRouter.pair_nodeIds r
      (((HubLRouter.Used.start).returned hrun).aborted hfail hi) 5 1 0⟩
  · obtain ⟨state, hrun, _⟩ := exists_of_map_toOption (p := fun _ => true)
      (x := DijkstraRouter.search 3 DijkstraRouter.rowGrid
        (DijkstraRouter.new DijkstraRouter.rowGrid) 0 2) (by decide +kernel)
    exact ⟨state, hrun, route_eq_new.2 _ _ ((DijkstraRouter.Used.start).returned hrun) 1 0⟩

end SeaRouter
