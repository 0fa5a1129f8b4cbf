import SeaRouter.Router.Requests

/-!
# Requests between nodes with labels

A request between two nodes with labels reads nothing of the router before its last
step, the extraction of the path.  When this step returns, it leaves all stacks empty
and the temporary labels as they were.  So such requests cannot disturb each other:
`Request.returns_route` says that a request that returns on a new router returns the
same result whatever others do between its steps.
-/

namespace SeaRouter

open Java

/-- A stack that is empty holds nothing. -/
theorem IntStack.Same.holds_nil {k : Nat} {s t : IntStack} (h : s.Same k t)
    (hempty : s.isEmpty = true) : s.Holds [] := by
  obtain ⟨xs, _, hs, _⟩ := h
  rw [IntStack.isEmpty_eq hs] at hempty
  cases xs with
  | nil => exact hs
  | cons x xs => simp at hempty

namespace HubLRouter

variable {H : HubLEdges} {N : HubLNodes} {r r' : HubLRouter}

/-- No request has left anything on the stacks or in the temporary labels. -/
structure Calm (r : HubLRouter) : Prop where
  idle : Stacks r [] [] []
  heap : r.heap.Equal
  labelHeap : r.labelHeap.Equal
  left : r.left.Cleared
  right : r.right.Cleared

theorem Calm.same (h : Calm r) (h' : Calm r') : SameStacks 0 r r' where
  resultNodes := ⟨[], le_refl 0, h.idle.result_, h'.idle.result_⟩
  edgesRight := ⟨[], le_refl 0, h.idle.right_, h'.idle.right_⟩
  edgesLeft := ⟨[], le_refl 0, h.idle.left_, h'.idle.left_⟩
  edgeCalcStack := ⟨[], le_refl 0, h.idle.calc_, h'.idle.calc_⟩
  heap := ⟨h.heap, h'.heap⟩
  labelHeap := ⟨h.labelHeap, h'.labelHeap⟩
  left := ⟨[], h.left.same h'.left⟩
  right := ⟨[], h.right.same h'.right⟩

theorem Calm.sane (h : Calm r) : Sane r := (h.same h).sane.1

theorem Sane.calm_reset (h : Sane r) : Calm (HubLRouter.reset r) where
  idle := {
    left_ := IntStack.clear_holds h.edgesLeft
    right_ := IntStack.clear_holds h.edgesRight
    calc_ := IntStack.clear_holds h.edgeCalcStack
    result_ := IntStack.clear_holds h.resultNodes }
  heap := h.heap.reset_stores.equal
  labelHeap := h.labelHeap
  left := h.left
  right := h.right

theorem calm_new : Calm HubLRouter.new where
  idle := stacks_new
  heap := sane_new.heap
  labelHeap := sane_new.labelHeap
  left := TempLabels.new_cleared
  right := TempLabels.new_cleared

/-! ## What the extraction leaves -/

/-- The inner loops end with an empty stack. -/
theorem unpackLoop_isEmpty {fuel : Nat} {pushedFirst pushedLast : Int → Run Int}
    {work work' result result' : IntStack}
    (hrun : unpackLoop fuel H pushedFirst pushedLast work result = .ok (work', result')) :
    work'.isEmpty = true := by
  have hend := (whileLoop_inv (I := fun _ => True) (fun _ _ _ _ _ => trivial) fuel _ _ trivial
    hrun).2
  simpa using hend

/-- The temporary labels are those of `r`, and `edgeCalcStack` is empty. -/
structure Unpacked (r r' : HubLRouter) : Prop where
  left : r'.left = r.left
  right : r'.right = r.right
  calc_ : r'.edgeCalcStack.isEmpty = true

theorem leftStep_unpacked {fuel : Nat} (hrun : leftStep fuel H r = .ok r') :
    Unpacked r r' := by
  simp only [leftStep, unpackLeft, bind_eq_ok, pure_eq_ok, Except.ok.injEq] at hrun
  obtain ⟨_, _, _, _, _, hunpack, rfl⟩ := hrun
  exact ⟨rfl, rfl, unpackLoop_isEmpty hunpack⟩

theorem rightStep_unpacked {fuel : Nat} (hrun : rightStep fuel H r = .ok r') :
    Unpacked r r' ∧ r'.edgesLeft = r.edgesLeft := by
  simp only [rightStep, unpackRight, bind_eq_ok, pure_eq_ok, Except.ok.injEq] at hrun
  obtain ⟨_, _, _, _, _, hunpack, rfl⟩ := hrun
  exact ⟨⟨rfl, rfl, unpackLoop_isEmpty hunpack⟩, rfl⟩

/-- Both loops over the edges of a side go on until there are none left. -/
theorem calculateRoute_unpacked {fuel : Nat} {s t : Int} (hcalc : r.edgeCalcStack.isEmpty = true)
    (hrun : calculateRoute fuel H r s t = .ok r') :
    Unpacked r r' ∧ r'.edgesLeft.isEmpty = true ∧ r'.edgesRight.isEmpty = true := by
  simp only [calculateRoute, bind_eq_ok, pure_eq_ok, Except.ok.injEq] at hrun
  obtain ⟨nodes, _, r₁, hleft, ⟨_, nodes'⟩, _, r₂, hright, _, _, rfl⟩ := hrun
  have hstart : Unpacked r { r with resultNodes := nodes } := ⟨rfl, rfl, hcalc⟩
  obtain ⟨h₁, hempty₁⟩ := whileLoop_inv (f := leftStep fuel H) (I := Unpacked r)
    (fun s s' hs _ hstep => by
      have h := leftStep_unpacked hstep
      exact ⟨h.left.trans hs.left, h.right.trans hs.right, h.calc_⟩)
    fuel _ _ hstart hleft
  have hnext : Unpacked r { r₁ with resultNodes := nodes' } := ⟨h₁.left, h₁.right, h₁.calc_⟩
  obtain ⟨⟨h₂, hsame⟩, hempty₂⟩ := whileLoop_inv (f := rightStep fuel H)
    (I := fun r' => Unpacked r r' ∧ r'.edgesLeft = r₁.edgesLeft)
    (fun s s' hs _ hstep => by
      obtain ⟨h, hedges⟩ := rightStep_unpacked hstep
      exact ⟨⟨h.left.trans hs.1.left, h.right.trans hs.1.right, h.calc_⟩, hedges.trans hs.2⟩)
    fuel _ _ ⟨hnext, rfl⟩ hright
  refine ⟨⟨h₂.left, h₂.right, h₂.calc_⟩, ?_, ?_⟩
  · show r₂.edgesLeft.isEmpty = true
    rw [hsame]
    simpa using hempty₁
  · simpa using hempty₂

theorem finish_unpacked {fuel : Nat} {s t d : Int} {result : RoutingResult}
    (hcalc : r.edgeCalcStack.isEmpty = true)
    (hrun : finish fuel H r s t d = .ok (result, r')) :
    Unpacked r r' ∧ r'.edgesLeft.isEmpty = true ∧ r'.edgesRight.isEmpty = true ∧
      r'.resultNodes.isEmpty = true := by
  simp only [finish, resultPath, bind_eq_ok, pure_eq_ok, Except.ok.injEq, Prod.mk.injEq] at hrun
  obtain ⟨r₁, hroute, ⟨_, nodes⟩, hpath, _, rfl⟩ := hrun
  obtain ⟨h, hleft, hright⟩ := calculateRoute_unpacked hcalc hroute
  have hend := (whileLoop_inv (I := fun _ => True) (fun _ _ _ _ _ => trivial) fuel _ _ trivial
    hpath).2
  exact ⟨⟨h.left, h.right, h.calc_⟩, hleft, hright, by simpa using hend⟩

/-- The extraction of a path between two nodes with labels leaves nothing behind. -/
theorem extract_calm {fuel : Nat} {s t : Int} {best : Selection} {result : RoutingResult}
    (hs : N.nodeHasLabels s = .ok true) (ht : N.nodeHasLabels t = .ok true) (h : Calm r)
    (hrun : extract fuel H N r s t best = .ok (result, r')) : Calm r' := by
  obtain ⟨⟨_, _⟩, _, hsame⟩ := (extract_agree fuel (h.same h) s t best).exists_right hrun
  cases hsame with
  | mk _ hsame =>
    simp only [extract, hs, ht, ok_bind, Bool.and_self, if_true, bind_eq_ok] at hrun
    obtain ⟨edgesRight, _, edgesLeft, _, hfinish⟩ := hrun
    have hcalc : r.edgeCalcStack.isEmpty = true := by
      rw [IntStack.isEmpty_eq h.idle.calc_]
      rfl
    obtain ⟨hunpacked, hleft, hright, hresult⟩ := finish_unpacked
      (r := { r with edgesRight := edgesRight, edgesLeft := edgesLeft }) hcalc hfinish
    exact ⟨⟨hsame.edgesLeft.holds_nil hleft, hsame.edgesRight.holds_nil hright,
      hsame.edgeCalcStack.holds_nil hunpacked.calc_, hsame.resultNodes.holds_nil hresult⟩,
      hsame.heap.1, hsame.labelHeap.1, hunpacked.left ▸ h.left, hunpacked.right ▸ h.right⟩

namespace Request

/-! ## The steps before it -/

theorem reads_select2Lbl (s t : Int) : (select2Lbl N s t).Reads := by
  apply Thread.reads_bind (Thread.reads_read _)
  intro a
  apply Thread.reads_bind (Thread.reads_read _)
  intro b
  apply Thread.reads_bind (Thread.reads_read _)
  intro a'
  apply Thread.reads_bind (Thread.reads_read _)
  intro b'
  split_ifs
  · exact trivial
  · apply Thread.reads_bind (Thread.reads_read _)
    intro m
    apply Thread.reads_bind
    · exact Thread.reads_loop _ m
    · intro m
      exact trivial

/-- The selection between two nodes with labels. -/
theorem returns_select {s t : Int} (hs : N.nodeHasLabels s = .ok true)
    (ht : N.nodeHasLabels t = .ok true) {fuel : Nat} {best : Selection}
    (hsel : HubLRouter.select fuel H N r s t = .ok (best, r')) :
    (select fuel H N s t).Returns Calm best := by
  have hread : ∀ v, N.nodeHasLabels v = .ok true →
      (Thread.read fun _ : HubLRouter => N.nodeHasLabels v).Returns Calm true := by
    intro v hv
    have hrun : (Thread.read fun _ : HubLRouter => N.nodeHasLabels v).run r = .ok (true, r) := by
      rw [Thread.run_read, hv, ok_bind]
    exact (Thread.reads_read _).returns hrun
  unfold select
  apply Thread.returns_bind (a := ())
  · apply Thread.returns_lift
    intro r hr
    exact ⟨_, rfl, hr.sane.calm_reset⟩
  · apply Thread.returns_bind (hread s hs)
    apply Thread.returns_bind (hread t ht)
    simp only [HubLRouter.select, hs, ht, ok_bind, Bool.and_self, if_true] at hsel ⊢
    have hrun : (select2Lbl N s t).run (reset r) = .ok (best, r') := by
      rw [run_select2Lbl, hsel]
    exact (reads_select2Lbl s t).returns hrun

/-- The selection leaves the router as the reset does. -/
theorem select_labelled_eq {s t : Int} (hs : N.nodeHasLabels s = .ok true)
    (ht : N.nodeHasLabels t = .ok true) {fuel : Nat} {best : Selection}
    (hsel : HubLRouter.select fuel H N r s t = .ok (best, r')) : r' = reset r := by
  simp only [HubLRouter.select, hs, ht, ok_bind, Bool.and_self, if_true, HubLRouter.select2Lbl,
    bind_eq_ok] at hsel
  obtain ⟨_, _, _, _, _, _, _, _, hsel⟩ := hsel
  split_ifs at hsel
  · simp only [pure_eq_ok, Except.ok.injEq, Prod.mk.injEq] at hsel
    exact hsel.2.symm
  · simp only [bind_eq_ok, pure_eq_ok, Except.ok.injEq, Prod.mk.injEq] at hsel
    obtain ⟨_, _, _, rfl⟩ := hsel
    rfl

/-- A request between two nodes with labels that returns on a new router returns the
same among other such requests. -/
theorem returns_route {s t : Int} (hs : N.nodeHasLabels s = .ok true)
    (ht : N.nodeHasLabels t = .ok true) {fuel : Nat} {result : RoutingResult}
    (hrun : HubLRouter.route fuel H N HubLRouter.new s t = .ok (result, r')) :
    (route fuel H N s t).Returns Calm result := by
  rw [route_eq, bind_eq_ok] at hrun
  obtain ⟨⟨best, r₁⟩, hsel, hrest⟩ := hrun
  apply Thread.returns_bind (returns_select hs ht hsel)
  obtain rfl := select_labelled_eq hs ht hsel
  have hnew : Calm (reset HubLRouter.new) := calm_new.sane.calm_reset
  simp only at hrest
  split_ifs at hrest ⊢ with hnone
  · simp only [pure_eq_ok, Except.ok.injEq, Prod.mk.injEq] at hrest
    exact hrest.1
  · apply Thread.returns_lift
    intro r hr
    obtain ⟨⟨result', r''⟩, hextract, hpaired⟩ :=
      (extract_agree fuel (hnew.same hr) s t best).exists_right hrest
    cases hpaired
    exact ⟨r'', hextract, extract_calm hs ht hr hextract⟩

end Request

/-- A request that returns has found the levels of its nodes. -/
theorem nodeHasLabels_of_route {fuel : Nat} {s t : Int} {result : RoutingResult}
    (hrun : route fuel H N r s t = .ok (result, r')) :
    (∃ b, N.nodeHasLabels s = .ok b) ∧ ∃ b, N.nodeHasLabels t = .ok b := by
  simp only [route, routeGeneral, bind_eq_ok] at hrun
  obtain ⟨b, hs, b', ht, _⟩ := hrun
  exact ⟨⟨b, hs⟩, b', ht⟩

end HubLRouter

end SeaRouter
