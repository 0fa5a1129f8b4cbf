import SeaRouter.Router.DijkstraHeap

/-!
# `router/DijkstraHeap.java`: runs

The heap from one `resetState` on, with the distances that the router keeps for it.

* `Reached`: what any sequence of `resetState`, `add` and `getNext` leaves.  A distance is
  never raised, and a node that `getNext` removed is not added again.
* `queue_of_reached`: in every run the heap is a queue of the nodes by their distances, hands
  out each node at most once, and `heapPosition` is the inverse of `idHeapArray`.
-/

namespace SeaRouter

open Java

namespace DijkstraHeap

/-- The distances `dist` of a router, its heap, the map from the nodes of the heap to their
distances, and the nodes that `getNext` removed since the last `resetState`. -/
inductive Reached (nodeCount : Nat) :
    List Int → DijkstraHeap → (Int → Option Int) → (Int → Prop) → Prop
  | reset {dist : List Int} {h : DijkstraHeap} : dist.length = nodeCount →
      h.heapPosition.length = nodeCount →
      Reached nodeCount dist (resetState h) (fun _ => none) (fun _ => False)
  | add {dist : List Int} {h h' : DijkstraHeap} {M : Int → Option Int} {removed : Int → Prop}
      {id d : Int} : Reached nodeCount dist h M removed → (0 ≤ id ∧ id < nodeCount) →
      ¬ removed id → (∀ d₀, M id = some d₀ → d ≤ d₀) → add (dist.set id.toNat d) h id = .ok h' →
      Reached nodeCount (dist.set id.toNat d) h' (fun x => if x = id then some d else M x) removed
  | getNext {dist : List Int} {h h' : DijkstraHeap} {M : Int → Option Int}
      {removed : Int → Prop} {id : Int} : Reached nodeCount dist h M removed →
      isEmpty h = false → getNext dist h = .ok (id, h') →
      Reached nodeCount dist h' (fun x => if x = id then none else M x)
        (fun x => removed x ∨ x = id)

/-- What a caller sees of the heap is the map `M`. -/
structure IsQueue (nodeCount : Nat) (dist : List Int) (h : DijkstraHeap) (M : Int → Option Int)
    (removed : Int → Prop) : Prop where
  isEmpty_iff : isEmpty h = true ↔ ∀ x, M x = none
  add : ∀ id d : Int, (0 ≤ id ∧ id < nodeCount) → ¬ removed id → (∀ d₀, M id = some d₀ → d ≤ d₀) →
    ∃ h', add (dist.set id.toNat d) h id = .ok h'
  getNext : isEmpty h = false → ∃ id d h', getNext dist h = .ok (id, h') ∧ M id = some d ∧
    ¬ removed id ∧ ∀ x b, M x = some b → d ≤ b
  arrays : ∃ ids, slice h.idHeapArray 0 h.currentSize = .ok ids ∧ ids.Nodup ∧
    (∀ x, x ∈ ids ↔ (M x).isSome) ∧
    ∀ (i : Nat) x, ids[i]? = some x → rd h.heapPosition x = .ok (i : Int)

/-- What each operation keeps. -/
structure Queues (nodeCount : Nat) (dist : List Int) (h : DijkstraHeap) (M : Int → Option Int)
    (removed : Int → Prop) : Prop where
  length : dist.length = nodeCount
  holds : Holds dist h (fun x => (M x).isSome)
    (fun x => (0 ≤ x ∧ x < nodeCount) ∧ M x = none ∧ ¬ removed x)
  key_eq : ∀ x d, M x = some d → key dist x = d
  gone : ∀ x, removed x → M x = none

variable {nodeCount : Nat} {dist : List Int} {h : DijkstraHeap} {M : Int → Option Int}
  {removed : Int → Prop}

theorem Holds.congr {Q Q' F F' : Int → Prop} (hh : Holds dist h Q F) (hQ : ∀ x, Q' x ↔ Q x)
    (hF : ∀ x, F' x → F x) : Holds dist h Q' F' := by
  obtain ⟨ids, rest, hl, hsize, hids, hfresh, hheap⟩ := hh
  exact ⟨ids, rest, hl, hsize, fun x => (hQ x).trans (hids x), fun x hx => hfresh x (hF x hx),
    hheap⟩

/-- The nodes of the heap are nodes. -/
theorem Queues.range (hq : Queues nodeCount dist h M removed) {x d : Int} (hx : M x = some d) :
    0 ≤ x ∧ x < nodeCount := by
  obtain ⟨ids, rest, hl, _, hids, _⟩ := hq.holds
  have hmem : x ∈ ids := by
    apply (hids x).mp
    rw [hx]
    rfl
  rw [← hq.length]
  exact hl.range x hmem

theorem queues_reset (hdist : dist.length = nodeCount) (hlen : h.heapPosition.length = nodeCount) :
    Queues nodeCount dist (resetState h) (fun _ => none) (fun _ => False) where
  length := hdist
  holds := by
    apply (resetState_holds dist (hlen.trans hdist.symm)).congr
    · intro x
      simp
    · intro x hx
      rw [hdist]
      exact hx.1
  key_eq x d hx := by cases hx
  gone x hx := rfl

/-- The state of a node before an `add`. -/
theorem Queues.addable (hq : Queues nodeCount dist h M removed) {id d : Int}
    (hid : 0 ≤ id ∧ id < nodeCount) (hnew : ¬ removed id) (hle : ∀ d₀, M id = some d₀ → d ≤ d₀) :
    (M id).isSome ∧ d ≤ key dist id ∨ (0 ≤ id ∧ id < nodeCount) ∧ M id = none ∧ ¬ removed id := by
  cases hM : M id with
  | none => exact Or.inr ⟨hid, rfl, hnew⟩
  | some d₀ =>
    left
    rw [hq.key_eq id d₀ hM]
    exact ⟨rfl, hle d₀ hM⟩

theorem Queues.add (hq : Queues nodeCount dist h M removed) {id d : Int}
    (hid : 0 ≤ id ∧ id < nodeCount) (hnew : ¬ removed id) (hle : ∀ d₀, M id = some d₀ → d ≤ d₀) :
    ∃ h', DijkstraHeap.add (dist.set id.toNat d) h id = .ok h' ∧
      Queues nodeCount (dist.set id.toNat d) h' (fun x => if x = id then some d else M x)
        removed := by
  obtain ⟨h', hrun, hholds⟩ := add_spec hq.holds id d (hq.addable hid hnew hle)
  refine ⟨h', hrun, ?_, ?_, ?_, ?_⟩
  · rw [List.length_set]
    exact hq.length
  · apply hholds.congr
    · intro x
      by_cases hx : x = id
      · simp [hx]
      · simp [hx]
    · intro x hx
      have hne : x ≠ id := by
        intro heq
        rw [if_pos heq] at hx
        cases hx.2.1
      rw [if_neg hne] at hx
      exact ⟨hx, hne⟩
  · intro x b hx
    by_cases heq : x = id
    · rw [if_pos heq, Option.some.injEq] at hx
      rw [heq, key_set hid.1 (by rw [hq.length]; exact hid.2) hid.1, if_pos rfl]
      exact hx
    · rw [if_neg heq] at hx
      rw [key_set hid.1 (by rw [hq.length]; exact hid.2) (hq.range hx).1, if_neg heq]
      exact hq.key_eq x b hx
  · intro x hx
    have hne : x ≠ id := by
      intro heq
      exact hnew (heq ▸ hx)
    rw [if_neg hne]
    exact hq.gone x hx

theorem Queues.getNext (hq : Queues nodeCount dist h M removed) (hne : isEmpty h = false) :
    ∃ id d h', DijkstraHeap.getNext dist h = .ok (id, h') ∧ M id = some d ∧
      (∀ x b, M x = some b → d ≤ b) ∧
      Queues nodeCount dist h' (fun x => if x = id then none else M x)
        (fun x => removed x ∨ x = id) := by
  obtain ⟨v, h', hrun, hv, hmin, hholds⟩ := getNext_spec hq.holds hne
  obtain ⟨d, hd⟩ := Option.isSome_iff_exists.mp hv
  refine ⟨v, d, h', hrun, hd, ?_, hq.length, ?_, ?_, ?_⟩
  · intro x b hx
    rw [← hq.key_eq v d hd, ← hq.key_eq x b hx]
    apply hmin
    rw [hx]
    rfl
  · apply hholds.congr
    · intro x
      by_cases hx : x = v
      · simp [hx]
      · simp [hx]
    · intro x hx
      obtain ⟨hrange, hM, hnot⟩ := hx
      have hnot := not_or.mp hnot
      rw [if_neg hnot.2] at hM
      exact ⟨hrange, hM, hnot.1⟩
  · intro x b hx
    have hxv : x ≠ v := by
      intro heq
      rw [if_pos heq] at hx
      cases hx
    rw [if_neg hxv] at hx
    exact hq.key_eq x b hx
  · intro x hx
    by_cases hxv : x = v
    · exact if_pos hxv
    · rw [if_neg hxv]
      cases hx with
      | inl hold => exact hq.gone x hold
      | inr heq => exact absurd heq hxv

theorem Reached.queues (hr : Reached nodeCount dist h M removed) :
    Queues nodeCount dist h M removed := by
  induction hr with
  | reset hdist hlen => exact queues_reset hdist hlen
  | add _ hid hnew hle hrun ih =>
    obtain ⟨h', hrun', hq⟩ := ih.add hid hnew hle
    rw [hrun, Except.ok.injEq] at hrun'
    rw [hrun']
    exact hq
  | getNext _ hne hrun ih =>
    obtain ⟨v, _, h', hrun', _, _, hq⟩ := ih.getNext hne
    rw [hrun, Except.ok.injEq, Prod.mk.injEq] at hrun'
    rw [hrun'.1, hrun'.2]
    exact hq

theorem Queues.arrays (hq : Queues nodeCount dist h M removed) :
    ∃ ids, slice h.idHeapArray 0 h.currentSize = .ok ids ∧ ids.Nodup ∧
      (∀ x, x ∈ ids ↔ (M x).isSome) ∧
      ∀ (i : Nat) x, ids[i]? = some x → rd h.heapPosition x = .ok (i : Int) := by
  obtain ⟨ids, rest, hl, hsize, hids, _⟩ := hq.holds
  refine ⟨ids, ?_, hl.nodup, fun x => (hids x).symm, ?_⟩
  · rw [hl.heap, hsize]
    exact slice_append
  · intro i x hx
    obtain ⟨hi, hget⟩ := List.getElem?_eq_some_iff.mp hx
    have hpos := hl.pos i hi
    rw [BinHeap.idAt_eq_getElem hi, hget] at hpos
    exact hpos

/-- In every run the heap is a queue of its nodes by their distances. -/
theorem queue_of_reached (hr : Reached nodeCount dist h M removed) :
    IsQueue nodeCount dist h M removed := by
  have hq := hr.queues
  refine ⟨?_, ?_, ?_, hq.arrays⟩
  · rw [DijkstraHeap.isEmpty_iff hq.holds]
    simp
  · intro id d hid hnew hle
    obtain ⟨h', hrun, _⟩ := hq.add hid hnew hle
    exact ⟨h', hrun⟩
  · intro hne
    obtain ⟨v, d, h', hrun, hd, hmin, _⟩ := hq.getNext hne
    refine ⟨v, d, h', hrun, hd, ?_, hmin⟩
    intro hgone
    rw [hq.gone v hgone] at hd
    cases hd

/-- The distance of the node 1 is lowered, then it is removed. -/
theorem queue_of_reached_lowered : ∃ h₁ h₂ h₃ h₄ : DijkstraHeap,
    add [0, 0, 5] (resetState (new 3)) 2 = .ok h₁ ∧ add [0, 7, 5] h₁ 1 = .ok h₂ ∧
      add [0, 3, 5] h₂ 1 = .ok h₃ ∧ getNext [0, 3, 5] h₃ = .ok (1, h₄) ∧
      IsQueue 3 [0, 3, 5] h₄ (fun x => if x = 1 then none else if x = 1 then some 3
        else if x = 1 then some 7 else if x = 2 then some 5 else none)
        (fun x => False ∨ x = 1) := by
  obtain ⟨⟨v, h₄⟩, hrun, hv⟩ := exists_of_map_toOption (p := fun r => r.1 = 1)
    (x := do
      let h₁ ← add [0, 0, 5] (resetState (new 3)) 2
      let h₂ ← add [0, 7, 5] h₁ 1
      let h₃ ← add [0, 3, 5] h₂ 1
      getNext [0, 3, 5] h₃) (by decide +kernel)
  simp only [bind_eq_ok] at hrun
  obtain ⟨h₁, hrun₁, h₂, hrun₂, h₃, hrun₃, hrun₄⟩ := hrun
  obtain rfl : v = 1 := of_decide_eq_true hv
  have hr₀ : Reached 3 [0, 0, 0] (resetState (new 3)) _ _ := .reset rfl (by simp [new])
  have hr₁ := hr₀.add (d := 5) (show 0 ≤ (2 : Int) ∧ (2 : Int) < (3 : Nat) by decide) (by simp)
    (by simp) hrun₁
  have hr₂ := hr₁.add (d := 7) (show 0 ≤ (1 : Int) ∧ (1 : Int) < (3 : Nat) by decide) (by simp)
    (by simp) hrun₂
  have hr₃ := hr₂.add (d := 3) (show 0 ≤ (1 : Int) ∧ (1 : Int) < (3 : Nat) by decide) (by simp)
    (by simp) hrun₃
  have hne : isEmpty h₃ = false := by
    apply Bool.eq_false_iff.mpr
    intro hempty
    have hnone := (DijkstraHeap.isEmpty_iff hr₃.queues.holds).mp hempty 1
    simp at hnone
  exact ⟨h₁, h₂, h₃, h₄, hrun₁, hrun₂, hrun₃, hrun₄,
    queue_of_reached (hr₃.getNext hne hrun₄)⟩

end DijkstraHeap

end SeaRouter
