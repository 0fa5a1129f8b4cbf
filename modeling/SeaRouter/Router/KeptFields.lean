import SeaRouter.Router.Reuse

/-!
# What a request keeps of a router in any state

A request that is interrupted by another one goes on with whatever the other one
left in the data structures.  It may read old elements, miss a node or throw, but it
keeps what the next `reset` relies on: `Sane` speaks of the final fields and of the
lengths of the arrays of a heap, and each part of a request preserves it, without
anything being known of the contents.
-/

namespace SeaRouter

open Java

/-! ## Data structures -/

namespace IntStack

variable {s : IntStack}

theorem growIfFull_increase (h : 0 < s.sizeIncrease) : 0 < (growIfFull s).sizeIncrease := by
  unfold growIfFull
  split_ifs
  · exact h
  · exact h

theorem ensures_push (h : 0 < s.sizeIncrease) (x : Int) :
    Ensures (fun s' => 0 < s'.sizeIncrease) (push s x) := by
  unfold push
  apply Ensures.bind_any
  intro elements
  exact Ensures.ok (growIfFull_increase h)

theorem ensures_popFifo (h : 0 < s.sizeIncrease) :
    Ensures (fun a => 0 < a.2.sizeIncrease) (popFifo s) := by
  unfold popFifo
  apply Ensures.bind_any
  intro x
  exact Ensures.ok h

theorem ensures_pop (h : 0 < s.sizeIncrease) :
    Ensures (fun a => 0 < a.2.sizeIncrease) (pop s) := by
  unfold pop
  apply Ensures.bind_any
  intro x
  exact Ensures.ok h

end IntStack

namespace OrderedIntSet

/-- What `clear` relies on. -/
def Intact (ordered : Bool) (s : OrderedIntSet) : Prop :=
  s.orderedBySorting = ordered ∧ 0 < s.sizeIncrease

variable {s : OrderedIntSet} {ordered : Bool}

theorem growIfFull_intact (h : Intact ordered s) : Intact ordered (growIfFull s) := by
  unfold growIfFull
  split_ifs
  · exact h
  · exact h

theorem makeSpace_intact (h : Intact ordered s) (k : Int) : Intact ordered (makeSpace s k) := by
  unfold makeSpace
  split_ifs
  · exact h
  · exact h

theorem ensures_insertTail (h : Intact ordered s) (x : Int) :
    Ensures (Intact ordered) (insertTail s x) := by
  unfold insertTail
  apply Ensures.bind_any
  intro elements
  exact Ensures.ok (growIfFull_intact h)

theorem ensures_insertAtIdx (h : Intact ordered s) (x idx : Int) :
    Ensures (Intact ordered) (insertAtIdx s x idx) := by
  unfold insertAtIdx
  apply Ensures.bind_any
  intro elements
  exact Ensures.ok (growIfFull_intact h)

theorem ensures_updateValue (h : Intact ordered s) (x idx : Int) :
    Ensures (Intact ordered) (updateValue s x idx) := by
  unfold updateValue
  apply Ensures.bind_any
  intro elements
  exact Ensures.ok h

end OrderedIntSet

namespace TempLabels

/-- What `clear` relies on, of the four lists. -/
structure Intact (t : TempLabels) : Prop where
  label : t.label.Intact true
  dist : ∃ ordered, t.dist.Intact ordered
  edge : ∃ ordered, t.edge.Intact ordered
  addInfo : ∃ ordered, t.addInfo.Intact ordered

variable {t : TempLabels}

theorem intact_iff : Intact t ↔ t.clear.Cleared := by
  constructor
  · intro h
    obtain ⟨_, hd⟩ := h.dist
    obtain ⟨_, he⟩ := h.edge
    obtain ⟨_, hi⟩ := h.addInfo
    exact ⟨h.label.1, OrderedIntSet.clear_holds h.label.2, OrderedIntSet.clear_holds hd.2,
      OrderedIntSet.clear_holds he.2, OrderedIntSet.clear_holds hi.2⟩
  · intro h
    exact ⟨⟨h.ordered, h.label.increase⟩, ⟨_, rfl, h.dist.increase⟩, ⟨_, rfl, h.edge.increase⟩,
      ⟨_, rfl, h.addInfo.increase⟩⟩

theorem ensures_insertTail (h : Intact t) (x d e info : Int) :
    Ensures Intact (t.insertTail x d e info) := by
  obtain ⟨_, hd⟩ := h.dist
  obtain ⟨_, he⟩ := h.edge
  obtain ⟨_, hi⟩ := h.addInfo
  unfold insertTail
  apply Ensures.bind (OrderedIntSet.ensures_insertTail h.label x)
  intro s₀ h₀
  apply Ensures.bind (OrderedIntSet.ensures_insertTail hd d)
  intro s₁ h₁
  apply Ensures.bind (OrderedIntSet.ensures_insertTail he e)
  intro s₂ h₂
  apply Ensures.bind (OrderedIntSet.ensures_insertTail hi info)
  intro s₃ h₃
  exact Ensures.ok ⟨h₀, ⟨_, h₁⟩, ⟨_, h₂⟩, ⟨_, h₃⟩⟩

theorem ensures_insertAtIdx (h : Intact t) (x d e info idx : Int) :
    Ensures Intact (t.insertAtIdx x d e info idx) := by
  obtain ⟨_, hd⟩ := h.dist
  obtain ⟨_, he⟩ := h.edge
  obtain ⟨_, hi⟩ := h.addInfo
  unfold insertAtIdx
  apply Ensures.bind (OrderedIntSet.ensures_insertAtIdx h.label x idx)
  intro s₀ h₀
  apply Ensures.bind (OrderedIntSet.ensures_insertAtIdx hd d idx)
  intro s₁ h₁
  apply Ensures.bind (OrderedIntSet.ensures_insertAtIdx he e idx)
  intro s₂ h₂
  apply Ensures.bind (OrderedIntSet.ensures_insertAtIdx hi info idx)
  intro s₃ h₃
  exact Ensures.ok ⟨h₀, ⟨_, h₁⟩, ⟨_, h₂⟩, ⟨_, h₃⟩⟩

theorem ensures_updateValue (h : Intact t) (d e info idx : Int) :
    Ensures Intact (t.updateValue d e info idx) := by
  obtain ⟨_, hd⟩ := h.dist
  obtain ⟨_, he⟩ := h.edge
  obtain ⟨_, hi⟩ := h.addInfo
  unfold updateValue
  apply Ensures.bind (OrderedIntSet.ensures_updateValue hd d idx)
  intro s₁ h₁
  apply Ensures.bind (OrderedIntSet.ensures_updateValue he e idx)
  intro s₂ h₂
  apply Ensures.bind (OrderedIntSet.ensures_updateValue hi info idx)
  intro s₃ h₃
  exact Ensures.ok ⟨h.label, ⟨_, h₁⟩, ⟨_, h₂⟩, ⟨_, h₃⟩⟩

theorem makeSpace_intact (h : Intact t) (k : Int) : Intact (t.makeSpace k) := by
  obtain ⟨_, hd⟩ := h.dist
  obtain ⟨_, he⟩ := h.edge
  obtain ⟨_, hi⟩ := h.addInfo
  exact ⟨OrderedIntSet.makeSpace_intact h.label k, ⟨_, OrderedIntSet.makeSpace_intact hd k⟩,
    ⟨_, OrderedIntSet.makeSpace_intact he k⟩, ⟨_, OrderedIntSet.makeSpace_intact hi k⟩⟩

end TempLabels

namespace DistanceHeap

variable {h : DistanceHeap}

theorem ensures_swap (hh : Equal h) (i j : Int) : Ensures Equal (swap h i j) := by
  constructor
  intro h' hrun
  unfold swap at hrun
  simp only [bind_eq_ok, pure_eq_ok, Except.ok.injEq] at hrun
  obtain ⟨_, _, _, _, ids, hids, ids', hids', _, _, _, _, _, _, _, _, _, _, _, _, pos, hpos, pos', hpos',
    rfl⟩ := hrun
  refine ⟨hh.increase, hh.distances, ?_, ?_⟩
  · rw [length_of_wr hpos', length_of_wr hpos, hh.heapPosition]
  · rw [length_of_wr hids', length_of_wr hids, hh.idHeapArray]

theorem ensures_heapifyTopDown (hh : Equal h) (n root : Int) :
    Ensures Equal (heapifyTopDown h n root) := by
  constructor
  intro h' hrun
  exact BinHeap.heapifyTopDown_inv (fun g i j g' hg hswap => (ensures_swap hg i j).result g' hswap) _ _ _ _ _
    hh hrun

theorem ensures_heapifyBottomUp (hh : Equal h) (i : Int) :
    Ensures Equal (heapifyBottomUp h i) := by
  constructor
  intro h' hrun
  exact BinHeap.heapifyBottomUp_inv (fun g i j g' hg hswap => (ensures_swap hg i j).result g' hswap) _ _ _ _
    hh hrun

theorem growIfFull_equal (hh : Equal h) : Equal (growIfFull h) := by
  unfold growIfFull
  split_ifs
  · refine ⟨hh.increase, ?_, ?_, ?_⟩
    · simp [grow, growBy, hh.distances]
    · simp [grow, growBy, hh.heapPosition]
    · simp [grow, growBy, hh.idHeapArray]
  · exact hh

theorem ensures_add (hh : Equal h) (id d : Int) : Ensures Equal (add h id d) := by
  have hg := growIfFull_equal hh
  unfold add
  apply Ensures.bind_any
  intro idx
  split_ifs
  · constructor
    intro h' hrun
    simp only [bind_eq_ok] at hrun
    obtain ⟨distances, hdist, position, _, hrun⟩ := hrun
    refine (ensures_heapifyBottomUp ?_ position).result h' hrun
    exact ⟨hh.increase, (length_of_wr hdist).trans hh.distances, hh.heapPosition, hh.idHeapArray⟩
  · constructor
    intro h' hrun
    simp only [bind_eq_ok, pure_eq_ok, Except.ok.injEq] at hrun
    obtain ⟨contained, hcont, dist, hdist, ids, hids, pos, hpos, g, hsift, rfl⟩ := hrun
    have hlen := length_of_shiftInsert hcont
    have hequal := (ensures_heapifyBottomUp (h := { growIfFull h with
        containedIds := contained, distances := dist, idHeapArray := ids, heapPosition := pos })
      ⟨hg.increase, by rw [length_of_shiftInsert hdist, hlen, hg.distances],
        by rw [length_of_shiftInsert hpos, hlen, hg.heapPosition],
        by rw [length_of_wr hids, hlen, hg.idHeapArray]⟩ _).result g hsift
    exact ⟨hequal.increase, hequal.distances, hequal.heapPosition, hequal.idHeapArray⟩

theorem ensures_removeIdx (hh : Equal h) (idx : Int) : Ensures Equal (removeIdx h idx) := by
  unfold removeIdx
  split_ifs
  · constructor
    intro h' hrun
    simp only [bind_eq_ok, pure_eq_ok, Except.ok.injEq] at hrun
    obtain ⟨contained, hcont, dist, hdist, pos, hpos, rfl⟩ := hrun
    have hlen := length_of_shiftRemove hcont
    exact ⟨hh.increase, by rw [length_of_shiftRemove hdist, hlen, hh.distances],
      by rw [length_of_shiftRemove hpos, hlen, hh.heapPosition], by rw [hlen, hh.idHeapArray]⟩
  · exact Ensures.ok hh

theorem ensures_getNext (hh : Equal h) : Ensures (fun a => Equal a.2) (getNext h) := by
  constructor
  intro a hrun
  unfold getNext at hrun
  simp only [bind_eq_ok, pure_eq_ok, Except.ok.injEq] at hrun
  obtain ⟨_, _, deleteIdx, _, last, _, ids, hids, _, _, pos, hpos, g, hsift, g', hremove, contained,
    hcont, rfl⟩ := hrun
  have hg := (ensures_heapifyTopDown (h := { h with
      currentSize := h.currentSize - 1, idHeapArray := ids, heapPosition := pos })
    ⟨hh.increase, hh.distances, (length_of_wr hpos).trans hh.heapPosition,
      (length_of_wr hids).trans hh.idHeapArray⟩ _ _).result g hsift
  have hg' := (ensures_removeIdx hg deleteIdx).result g' hremove
  have hlen := length_of_wr hcont
  exact ⟨hg'.increase, by rw [hlen, hg'.distances], by rw [hlen, hg'.heapPosition],
    by rw [hlen, hg'.idHeapArray]⟩

end DistanceHeap

/-! ## The parts of a request -/

namespace HubLRouter

variable {H : HubLEdges} {N : HubLNodes}

/-- What a later request relies on, of the data structures of a search. -/
structure Search.Intact (s : Search) : Prop where
  heap : s.heap.Equal
  labelHeap : s.labelHeap.Equal
  labels : s.labels.Intact

theorem ensures_relaxEdge {s : Search} (h : s.Intact) (u du i : Int) :
    Ensures Search.Intact (relaxEdge H N u du s i) := by
  unfold relaxEdge
  apply Ensures.bind_any
  intro e
  apply Ensures.bind_any
  intro v
  apply Ensures.bind_any
  intro l
  apply Ensures.bind_any
  intro idx
  split_ifs
  · apply Ensures.bind_any
    intro b
    cases b with
    | true =>
      apply Ensures.bind (DistanceHeap.ensures_add h.labelHeap v (du + l))
      intro g hg
      apply Ensures.bind_any
      intro stop
      apply Ensures.bind_any
      intro start
      apply Ensures.bind (TempLabels.ensures_insertAtIdx h.labels v (du + l) e u ((idx + 1) * (-1)))
      intro t ht
      exact Ensures.ok ⟨h.heap, hg, ht⟩
    | false =>
      apply Ensures.bind (DistanceHeap.ensures_add h.heap v (du + l))
      intro g hg
      apply Ensures.bind (TempLabels.ensures_insertAtIdx h.labels v (du + l) e u ((idx + 1) * (-1)))
      intro t ht
      exact Ensures.ok ⟨hg, h.labelHeap, ht⟩
  · apply Ensures.bind_any
    intro prevDist
    split_ifs
    · apply Ensures.bind_any
      intro b
      cases b with
      | true =>
        apply Ensures.bind (DistanceHeap.ensures_add h.labelHeap v (du + l))
        intro g hg
        apply Ensures.bind (TempLabels.ensures_updateValue h.labels (du + l) e u idx)
        intro t ht
        exact Ensures.ok ⟨h.heap, hg, ht⟩
      | false =>
        apply Ensures.bind (DistanceHeap.ensures_add h.heap v (du + l))
        intro g hg
        apply Ensures.bind (TempLabels.ensures_updateValue h.labels (du + l) e u idx)
        intro t ht
        exact Ensures.ok ⟨hg, h.labelHeap, ht⟩
    · exact Ensures.ok h

theorem ensures_expandNode {s : Search} (h : s.Intact) :
    Ensures Search.Intact (expandNode H N s) := by
  unfold expandNode
  apply Ensures.bind (DistanceHeap.ensures_getNext h.heap)
  intro a ha
  apply Ensures.bind_any
  intro idx
  apply Ensures.bind_any
  intro du
  apply Ensures.bind_any
  intro first
  apply Ensures.bind_any
  intro last
  apply Ensures.foldlM
  · exact ⟨ha, h.labelHeap, h.labels⟩
  · intro i s hs
    exact ensures_relaxEdge hs a.1 du i

theorem ensures_foldLabel {t : TempLabels} (h : t.Intact) (w dw i : Int) :
    Ensures TempLabels.Intact (foldLabel N w dw t i) := by
  unfold foldLabel
  apply Ensures.bind_any
  intro x
  apply Ensures.bind_any
  intro idx
  apply Ensures.bind_any
  intro d
  simp only
  split_ifs
  · apply Ensures.bind_any
    intro e
    exact TempLabels.ensures_insertAtIdx h _ _ _ _ _
  · apply Ensures.bind_any
    intro d'
    split_ifs
    · apply Ensures.bind_any
      intro e
      exact TempLabels.ensures_updateValue h _ _ _ _
    · exact Ensures.ok h

theorem ensures_expandLabels {s : Search} (h : s.Intact) :
    Ensures Search.Intact (expandLabels N s) := by
  unfold expandLabels
  apply Ensures.bind (DistanceHeap.ensures_getNext h.labelHeap)
  intro a ha
  apply Ensures.bind_any
  intro idx
  apply Ensures.bind_any
  intro dw
  apply Ensures.bind_any
  intro last
  apply Ensures.bind_any
  intro first
  apply Ensures.bind (Ensures.foldlM (P := TempLabels.Intact) (indices first last) h.labels ?_)
  · intro t ht
    exact Ensures.ok ⟨h.heap, ha, ht⟩
  · intro i t ht
    exact ensures_foldLabel ht a.1 dw i

/-- The stack of a side is one that can be emptied again. -/
def StackIntact (s : IntStack) : Prop := 0 < s.sizeIncrease

variable {s : IntStack}

theorem ensures_getEdges (h : StackIntact s) (fuel : Nat) (v hub : Int) :
    Ensures StackIntact (getEdges fuel H N v hub s) := by
  unfold getEdges
  apply Ensures.bind (P := fun a : Int × IntStack => StackIntact a.2)
  · apply Ensures.whileLoop
    · intro a ha
      unfold getEdgesStep
      apply Ensures.bind_any
      intro first
      apply Ensures.bind_any
      intro last
      apply Ensures.bind_any
      intro idx
      apply Ensures.bind_any
      intro e
      apply Ensures.bind_any
      intro w
      apply Ensures.bind (IntStack.ensures_push ha e)
      intro q hq
      exact Ensures.ok hq
    · exact h
  · intro a ha
    exact Ensures.ok ha

theorem ensures_labelEdges (h : StackIntact s) (fuel : Nat) (v hub idx : Int) :
    Ensures StackIntact (labelEdges fuel H N s v hub idx) := by
  unfold labelEdges
  split_ifs
  · apply Ensures.bind_any
    intro e
    apply Ensures.bind_any
    intro w
    apply Ensures.bind (IntStack.ensures_push h e)
    intro q hq
    exact ensures_getEdges hq fuel w hub
  · exact Ensures.ok h

theorem ensures_addEdges (h : StackIntact s) (fuel : Nat) (t : TempLabels) (v stopId : Int) :
    Ensures StackIntact (addEdges fuel t s v stopId) := by
  unfold addEdges
  apply Ensures.bind_any
  intro a
  apply Ensures.bind (P := fun b : IntStack × IntStack => StackIntact b.2)
  · apply Ensures.whileLoop
    · intro b hb
      unfold moveStep
      apply Ensures.bind_any
      intro x
      apply Ensures.bind (IntStack.ensures_push hb x.1)
      intro q hq
      exact Ensures.ok hq
    · exact h
  · intro b hb
    exact Ensures.ok hb

theorem ensures_tempEdges (h : StackIntact s) (fuel : Nat) (t : TempLabels) (v hub idx : Int) :
    Ensures StackIntact (tempEdges fuel H N t s v hub idx) := by
  unfold tempEdges
  apply Ensures.bind_any
  intro info
  split_ifs
  · apply Ensures.bind (ensures_addEdges h fuel t _ v)
    intro q hq
    apply Ensures.bind_any
    intro e
    apply Ensures.bind (IntStack.ensures_push hq e)
    intro p hp
    apply Ensures.bind_any
    intro w
    exact ensures_getEdges hp fuel w hub
  · exact ensures_addEdges h fuel t info v
  · exact Ensures.ok h

theorem ensures_unpackLoop (fuel : Nat) (pushedFirst pushedLast : Int → Run Int)
    {work result : IntStack} (hwork : StackIntact work) (hresult : StackIntact result) :
    Ensures (fun a : IntStack × IntStack => StackIntact a.1 ∧ StackIntact a.2)
      (unpackLoop fuel H pushedFirst pushedLast work result) := by
  unfold unpackLoop
  apply Ensures.whileLoop
  · intro a ha
    unfold unpackStep
    apply Ensures.bind (IntStack.ensures_pop ha.1)
    intro x hx
    simp only
    split_ifs
    · apply Ensures.bind_any
      intro e₁
      apply Ensures.bind (IntStack.ensures_push hx e₁)
      intro q hq
      apply Ensures.bind_any
      intro e₂
      apply Ensures.bind (IntStack.ensures_push hq e₂)
      intro q' hq'
      exact Ensures.ok ⟨hq', ha.2⟩
    · apply Ensures.bind_any
      intro w
      apply Ensures.bind (IntStack.ensures_push ha.2 w)
      intro q hq
      exact Ensures.ok ⟨hx, hq⟩
  · exact ⟨hwork, hresult⟩

variable {r : HubLRouter}

theorem ensures_leftStep (h : Sane r) (fuel : Nat) : Ensures Sane (leftStep fuel H r) := by
  unfold leftStep
  apply Ensures.bind (IntStack.ensures_popFifo h.edgesLeft)
  intro a ha
  apply Ensures.bind (IntStack.ensures_push h.edgeCalcStack a.1)
  intro q hq
  apply Ensures.bind (ensures_unpackLoop fuel _ _ hq h.resultNodes)
  intro b hb
  exact Ensures.ok { h with edgesLeft := ha, edgeCalcStack := hb.1, resultNodes := hb.2 }

theorem ensures_rightStep (h : Sane r) (fuel : Nat) : Ensures Sane (rightStep fuel H r) := by
  unfold rightStep
  apply Ensures.bind (IntStack.ensures_pop h.edgesRight)
  intro a ha
  apply Ensures.bind (IntStack.ensures_push h.edgeCalcStack a.1)
  intro q hq
  apply Ensures.bind (ensures_unpackLoop fuel _ _ hq h.resultNodes)
  intro b hb
  exact Ensures.ok { h with edgesRight := ha, edgeCalcStack := hb.1, resultNodes := hb.2 }

theorem ensures_calculateRoute (h : Sane r) (fuel : Nat) (start dest : Int) :
    Ensures Sane (calculateRoute fuel H r start dest) := by
  unfold calculateRoute
  apply Ensures.bind (IntStack.ensures_push h.resultNodes start)
  intro q hq
  apply Ensures.bind (P := Sane)
  · apply Ensures.whileLoop
    · intro r hr
      exact ensures_leftStep hr fuel
    · exact { h with resultNodes := hq }
  · intro r₁ h₁
    apply Ensures.bind (IntStack.ensures_pop h₁.resultNodes)
    intro a ha
    apply Ensures.bind (P := Sane)
    · apply Ensures.whileLoop
      · intro r hr
        exact ensures_rightStep hr fuel
      · exact { h₁ with resultNodes := ha }
    · intro r₂ h₂
      apply Ensures.bind (IntStack.ensures_push h₂.resultNodes dest)
      intro q hq
      exact Ensures.ok { h₂ with resultNodes := hq }

theorem ensures_finish (h : Sane r) (fuel : Nat) (start dest d : Int) :
    Ensures (fun a => Sane a.2) (finish fuel H r start dest d) := by
  unfold finish
  apply Ensures.bind (ensures_calculateRoute h fuel start dest)
  intro r₁ h₁
  unfold resultPath
  apply Ensures.bind (P := fun a : List Int × IntStack => StackIntact a.2)
  · apply Ensures.whileLoop
    · intro a ha
      unfold pathStep
      apply Ensures.bind (IntStack.ensures_popFifo ha)
      intro b hb
      exact Ensures.ok hb
    · exact h₁.resultNodes
  · intro a ha
    exact Ensures.ok { h₁ with resultNodes := ha }

theorem Sane.edges (h : Sane r) {edgesRight edgesLeft : IntStack} (hright : StackIntact edgesRight)
    (hleft : StackIntact edgesLeft) :
    Sane { r with edgesRight := edgesRight, edgesLeft := edgesLeft } :=
  { h with edgesRight := hright, edgesLeft := hleft }

theorem ensures_extract (h : Sane r) (fuel : Nat) (s t : Int) (best : Selection) :
    Ensures (fun a => Sane a.2) (extract fuel H N r s t best) := by
  unfold extract
  apply Ensures.bind_any
  intro a
  apply Ensures.bind_any
  intro b
  simp only
  split_ifs
  · apply Ensures.bind (ensures_labelEdges h.edgesRight fuel t _ _)
    intro er her
    apply Ensures.bind (ensures_labelEdges h.edgesLeft fuel s _ _)
    intro el hel
    exact ensures_finish (h.edges her hel) fuel s t _
  · apply Ensures.bind (ensures_tempEdges h.edgesLeft fuel _ s _ _)
    intro el hel
    apply Ensures.bind (ensures_tempEdges h.edgesRight fuel _ t _ _)
    intro er her
    exact ensures_finish (h.edges her hel) fuel s t _
  · apply Ensures.bind (ensures_labelEdges h.edgesLeft fuel s _ _)
    intro el hel
    apply Ensures.bind (ensures_tempEdges h.edgesRight fuel _ t _ _)
    intro er her
    exact ensures_finish (h.edges her hel) fuel s t _
  · apply Ensures.bind (ensures_labelEdges h.edgesRight fuel t _ _)
    intro er her
    apply Ensures.bind (ensures_tempEdges h.edgesLeft fuel _ s _ _)
    intro el hel
    exact ensures_finish (h.edges her hel) fuel s t _

theorem Sane.reset (h : Sane r) : Sane (reset r) where
  resultNodes := h.resultNodes
  edgesRight := h.edgesRight
  edgesLeft := h.edgesLeft
  edgeCalcStack := h.edgeCalcStack
  heap := h.heap.reset_stores.equal
  labelHeap := h.labelHeap
  left := h.left.clear
  right := h.right.clear

end HubLRouter

end SeaRouter
