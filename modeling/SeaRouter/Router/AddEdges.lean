import SeaRouter.Router.Pipeline

/-!
# The order in which `addEdges` pushes the edges

The temporary labels of a side lead from a node back to the request's own node:
`addInfo` is the node before and `edge` the edge from it.  `addEdges` follows them,
so it meets the last edge first.  Its second loop is there to turn the edges around,
but it takes them in the order in which they were pushed.

* `addEdges_spec`: the edges arrive in the order in which they were met.
* `addEdges_inOrder_iff`: this is the order of the way for at most one edge.
-/

namespace SeaRouter

open Java

namespace HubLRouter

variable {H : HubLEdges} {labels : TempLabels} {stopId v : Int} {l : List Int}

/-- Following `addInfo` from a node leads to `stopId`.  The list has the edges of this
way from `stopId` to the node, in the order in which they are travelled. -/
inductive Leaves (H : HubLEdges) (labels : TempLabels) (stopId : Int) : Int → List Int → Prop
  | stop : Leaves H labels stopId stopId []
  | step {v u e idx : Int} {l : List Int} : v ≠ stopId → labels.label.getIdx v = .ok idx →
      labels.edge.get idx = .ok e → labels.addInfo.get idx = .ok u → H.getDest e = .ok v →
      Leaves H labels stopId u l → Leaves H labels stopId v (l ++ [e])

/-- There is one such way. -/
theorem Leaves.unique {l' : List Int} (h : Leaves H labels stopId v l)
    (h' : Leaves H labels stopId v l') : l = l' := by
  induction h generalizing l' with
  | stop =>
    cases h' with
    | stop => rfl
    | step hne _ _ _ _ _ => exact absurd rfl hne
  | step hne hidx he hu _ _ ih =>
    cases h' with
    | stop => exact absurd rfl hne
    | step _ hidx' he' hu' _ hl' =>
      rw [hidx, Except.ok.injEq] at hidx'
      subst hidx'
      rw [he, Except.ok.injEq] at he'
      rw [hu, Except.ok.injEq] at hu'
      subst he' hu'
      rw [ih hl']

/-- The node behind the first edge. -/
theorem Leaves.first {e : Int} (h : Leaves H labels stopId v (e :: l)) :
    ∃ w, H.getDest e = .ok w ∧ Leaves H labels stopId w [e] := by
  generalize hl : e :: l = es at h
  induction h generalizing l with
  | stop => simp at hl
  | @step v u e' idx l' hne hidx he hu hdest hl' ih =>
    cases l' with
    | nil =>
      simp only [List.nil_append, List.cons.injEq] at hl
      obtain ⟨rfl, _⟩ := hl
      exact ⟨v, hdest, Leaves.step hne hidx he hu hdest hl'⟩
    | cons e₁ l₁ =>
      simp only [List.cons_append, List.cons.injEq] at hl
      obtain ⟨rfl, _⟩ := hl
      exact ih rfl

/-- The edge into the node. -/
theorem Leaves.last {e : Int} (h : Leaves H labels stopId v (l ++ [e])) :
    H.getDest e = .ok v := by
  generalize hl : l ++ [e] = es at h
  cases h with
  | stop => simp at hl
  | step _ _ _ _ hdest _ =>
    obtain ⟨_, rfl⟩ := List.append_inj' hl rfl |>.imp_right List.singleton_inj.mp
    exact hdest

/-- The way is the same in both directions if it has at most one edge: its first and
its last edge lead to different nodes. -/
theorem Leaves.reverse_eq_iff (h : Leaves H labels stopId v l) : l.reverse = l ↔ l.length ≤ 1 := by
  constructor
  · intro hrev
    by_contra hlong
    obtain ⟨e, m, rfl⟩ : ∃ e m, l = e :: m := by
      cases l with
      | nil => simp at hlong
      | cons e m => exact ⟨e, m, rfl⟩
    obtain ⟨m', e', hm⟩ : ∃ m' e', m = m' ++ [e'] := by
      apply (List.eq_nil_or_concat' m).resolve_left
      rintro rfl
      simp at hlong
    have he : e' = e := by
      rw [hm, List.reverse_cons, List.reverse_append, List.reverse_singleton] at hrev
      exact (List.cons.inj hrev).1
    subst hm he
    obtain ⟨w, hw, hfirst⟩ := h.first
    rw [← List.cons_append] at h
    have hlast := h.last
    rw [hw, Except.ok.injEq] at hlast
    subst hlast
    have := congrArg List.length (h.unique hfirst)
    simp at this
  · intro hshort
    cases l with
    | nil => rfl
    | cons e m =>
      obtain rfl : m = [] := List.eq_nil_of_length_eq_zero (by simpa using hshort)
      rfl

/-! ## The two loops -/

/-- The first loop meets the last edge first. -/
theorem Leaves.climb (h : Leaves H labels stopId v l) :
    ∀ {tmpStack : IntStack} {xs : List Int}, tmpStack.Holds xs →
      ∃ tmpStack' : IntStack, tmpStack'.Holds (xs ++ l.reverse) ∧ ∀ fuel, l.length ≤ fuel →
        whileLoop (fun s : Int × IntStack => return decide (s.1 ≠ stopId)) (climbStep labels) fuel
          (v, tmpStack) = .ok (stopId, tmpStack') := by
  induction h with
  | stop =>
    intro tmpStack xs hs
    refine ⟨tmpStack, by rw [List.reverse_nil, List.append_nil]; exact hs, ?_⟩
    intro fuel _
    exact whileLoop_of_false (by simp) fuel
  | @step v u e idx l hne hidx he hu _ _ ih =>
    intro tmpStack xs hs
    obtain ⟨tmp₁, hpush, hs₁⟩ := IntStack.push_spec hs e
    obtain ⟨tmp₂, hs₂, hrun⟩ := ih hs₁
    have hstep : climbStep labels (v, tmpStack) = .ok (u, tmp₁) := by
      simp only [climbStep, hidx, he, hpush, hu, ok_bind]
      rfl
    refine ⟨tmp₂, ?_, ?_⟩
    · rw [List.reverse_append, List.reverse_singleton, ← List.append_assoc]
      exact hs₂
    · intro fuel hfuel
      rw [List.length_append, List.length_singleton] at hfuel
      obtain ⟨fuel, rfl⟩ : ∃ m, fuel = m + 1 := ⟨fuel - 1, by omega⟩
      rw [whileLoop_of_true (by simp [hne]) hstep]
      exact hrun fuel (by omega)

/-- The second loop keeps the order. -/
theorem moveLoop_spec {xs : List Int} :
    ∀ {tmpStack resultStack : IntStack} {ys : List Int}, tmpStack.Holds xs →
      resultStack.Holds ys → ∃ tmpStack' resultStack' : IntStack, resultStack'.Holds (ys ++ xs) ∧
        ∀ fuel, xs.length ≤ fuel →
          whileLoop (fun s : IntStack × IntStack => return !s.1.isEmpty) moveStep fuel
            (tmpStack, resultStack) = .ok (tmpStack', resultStack') := by
  induction xs with
  | nil =>
    intro tmpStack resultStack ys ht hr
    refine ⟨tmpStack, resultStack, by rw [List.append_nil]; exact hr, ?_⟩
    intro fuel _
    exact whileLoop_of_false (by simp [IntStack.isEmpty_eq ht]) fuel
  | cons x xs ih =>
    intro tmpStack resultStack ys ht hr
    obtain ⟨tmp₁, hpop, ht₁⟩ := IntStack.popFifo_spec ht
    obtain ⟨result₁, hpush, hr₁⟩ := IntStack.push_spec hr x
    obtain ⟨tmp₂, result₂, hr₂, hrun⟩ := ih ht₁ hr₁
    have hstep : moveStep (tmpStack, resultStack) = .ok (tmp₁, result₁) := by
      simp only [moveStep, hpop, hpush, ok_bind]
      rfl
    refine ⟨tmp₂, result₂, by rw [List.append_cons]; exact hr₂, ?_⟩
    intro fuel hfuel
    obtain ⟨fuel, rfl⟩ : ∃ m, fuel = m + 1 := ⟨fuel - 1, by simp at hfuel; omega⟩
    rw [whileLoop_of_true (by simp [IntStack.isEmpty_eq ht]) hstep]
    exact hrun fuel (by simpa using hfuel)

/-- `addEdges` returns and appends the edges of the way, the last one first. -/
theorem addEdges_spec (h : Leaves H labels stopId v l) {resultStack : IntStack} {ys : List Int}
    (hr : resultStack.Holds ys) :
    ∃ resultStack' : IntStack, resultStack'.Holds (ys ++ l.reverse) ∧ ∀ fuel, l.length ≤ fuel →
      addEdges fuel labels resultStack v stopId = .ok resultStack' := by
  obtain ⟨tmpStack, ht, hclimb⟩ := h.climb (IntStack.new_holds (show 0 < 20 by omega))
  rw [List.nil_append] at ht
  obtain ⟨_, resultStack', hr', hmove⟩ := moveLoop_spec ht hr
  refine ⟨resultStack', hr', ?_⟩
  intro fuel hfuel
  rw [addEdges, hclimb fuel hfuel, ok_bind]
  dsimp only
  rw [hmove fuel (by rw [List.length_reverse]; exact hfuel), ok_bind]
  rfl

/-- `addEdges` returns and appends the edges in the order in which they are
travelled. -/
def AddsInOrder (labels : TempLabels) (resultStack : IntStack) (ys : List Int) (nodeId stopId : Int)
    (l : List Int) : Prop :=
  ∃ F, ∃ resultStack' : IntStack, resultStack'.Holds (ys ++ l) ∧ ∀ fuel, F ≤ fuel →
    addEdges fuel labels resultStack nodeId stopId = .ok resultStack'

/-- This is so for a way of at most one edge and for no other one. -/
theorem addEdges_inOrder_iff (H : HubLEdges) (labels : TempLabels) (resultStack : IntStack)
    (ys : List Int) (nodeId stopId : Int) (l : List Int) (h : Leaves H labels stopId nodeId l)
    (hr : resultStack.Holds ys) :
    AddsInOrder labels resultStack ys nodeId stopId l ↔ l.length ≤ 1 := by
  obtain ⟨result, hresult, hrun⟩ := addEdges_spec h hr
  rw [← h.reverse_eq_iff]
  constructor
  · intro hadds
    obtain ⟨F, result', hresult', hrun'⟩ := hadds
    have heq : result = result' := by
      have h1 := hrun (F + l.length) (by omega)
      rw [hrun' (F + l.length) (by omega), Except.ok.injEq] at h1
      exact h1.symm
    subst heq
    exact List.append_cancel_left (hresult.unique hresult')
  · intro hrev
    refine ⟨l.length, result, ?_, hrun⟩
    rw [← hrev]
    exact hresult

/-- A triangle in which the way over 1 is the shorter one. -/
def steps : InputGraph := InputGraph.ofEdges 3 [(0, 1, 1), (1, 2, 1), (0, 2, 10)]

/-- The temporary labels of the node 0, when no level has labels. -/
def stepsLabels : Run (HubLEdges × TempLabels) := do
  let s ← LabelCreator.calculateCH steps.edges steps.grid 3 [0, 1, 2]
  let L ← LabelCreator.calcLabels LabelCreator.NUM_OF_THREADS 3 s.edges s.grid s.levels 3
    (Labels.new 3)
  let (H, N) ← HubLNodes.serializeHubLData 3 s.levels s.edges s.grid L
  let (_, _, labels) ← calcTempLabels 10 H N new.heap new.labelHeap new.left 0
  return (H, labels)

/-- The entry of a node is the edge `e` from `u`. -/
def hasEntry (H : HubLEdges) (labels : TempLabels) (v e u : Int) : Bool :=
  ((do
    let idx ← labels.label.getIdx v
    return (← labels.edge.get idx, ← labels.addInfo.get idx, ← H.getDest e)) :
      Run (Int × Int × Int)).toOption == some (e, u, v)

theorem Leaves.of_hasEntry {e u : Int} (hne : v ≠ stopId) (h : hasEntry H labels v e u = true)
    (hl : Leaves H labels stopId u l) : Leaves H labels stopId v (l ++ [e]) := by
  rw [hasEntry, beq_iff_eq] at h
  obtain ⟨r, hr, heq⟩ := exists_of_map_toOption (p := fun r => r == (e, u, v))
    (by rw [h]; simp)
  simp only [beq_iff_eq] at heq
  subst heq
  simp only [bind_eq_ok, pure_eq_ok, Except.ok.injEq, Prod.mk.injEq] at hr
  obtain ⟨idx, hidx, e', he, u', hu, v', hv, rfl, rfl, rfl⟩ := hr
  exact Leaves.step hne hidx he hu hv hl

/-- The edges 0 and 3 lead from 0 over 1 to 2. -/
theorem exists_stepsLabels : ∃ H labels, stepsLabels = .ok (H, labels) ∧
    Leaves H labels 0 1 [0] ∧ Leaves H labels 0 2 [0, 3] := by
  obtain ⟨⟨H, labels⟩, hrun, hentries⟩ := exists_of_map_toOption (x := stepsLabels)
    (p := fun r => hasEntry r.1 r.2 1 0 0 && hasEntry r.1 r.2 2 3 1) (by decide +kernel)
  simp only [Bool.and_eq_true] at hentries
  have hone : Leaves H labels 0 1 [0] :=
    Leaves.stop.of_hasEntry (l := []) (by decide) hentries.1
  exact ⟨H, labels, hrun, hone, hone.of_hasEntry (by decide) hentries.2⟩

theorem addEdges_inOrder_iff_steps : ∃ H labels, stepsLabels = .ok (H, labels) ∧
    (AddsInOrder labels (IntStack.new 500) [] 1 0 [0] ↔ [(0 : Int)].length ≤ 1) := by
  obtain ⟨H, labels, hrun, hone, _⟩ := exists_stepsLabels
  exact ⟨H, labels, hrun, addEdges_inOrder_iff H labels _ [] 1 0 [0] hone
    (IntStack.new_holds (by decide))⟩

/-- On the way of two edges the second one is pushed first. -/
theorem steps_not_inOrder : ∃ H labels, stepsLabels = .ok (H, labels) ∧
    Leaves H labels 0 2 [0, 3] ∧ ¬ AddsInOrder labels (IntStack.new 500) [] 2 0 [0, 3] := by
  obtain ⟨H, labels, hrun, _, htwo⟩ := exists_stepsLabels
  refine ⟨H, labels, hrun, htwo, ?_⟩
  intro hadds
  obtain ⟨F, result', hresult', hrun'⟩ := hadds
  obtain ⟨result, hresult, hrun⟩ := addEdges_spec htwo (IntStack.new_holds (show 0 < 500 by decide))
  have h1 := hrun (F + 2) (by simp)
  rw [hrun' (F + 2) (by omega), Except.ok.injEq] at h1
  subst h1
  exact absurd (hresult'.unique hresult) (by decide)

end HubLRouter

end SeaRouter
