import SeaRouter.Lib.Agree
import SeaRouter.Router.TempLabels

/-!
# Data structures with the same contents

A request never reads what an earlier one left in the arrays of the router:
behind the elements of a stack or a list and behind the ids of a heap there may
be anything, and the arrays may have any length.  `Same` says of two stacks,
heaps or temporary labels that they have the same contents.  Each operation
agrees on them, so that a caller cannot tell them apart.

Two things must not happen: `pop` on an empty stack would read an old element, and
`getIdx` of `MAX_VALUE` would find the free part of the array.
-/

namespace SeaRouter

open Java

/-! ## Stacks -/

namespace IntStack

/-- The stacks have the same elements, and at least `k` of them. -/
def Same (k : Nat) (s t : IntStack) : Prop :=
  ∃ xs : List Int, k ≤ xs.length ∧ Holds s xs ∧ Holds t xs

variable {s t : IntStack} {k : Nat}

theorem Same.mono {j : Nat} (h : Same k s t) (hj : j ≤ k) : Same j s t := by
  obtain ⟨xs, hk, hs, ht⟩ := h
  exact ⟨xs, by omega, hs, ht⟩

theorem Same.isEmpty_eq (h : Same k s t) : isEmpty t = isEmpty s := by
  obtain ⟨xs, _, hs, ht⟩ := h
  rw [IntStack.isEmpty_eq hs, IntStack.isEmpty_eq ht]

theorem Same.nonempty (h : Same k s t) (hne : isEmpty s = false) : Same 1 s t := by
  obtain ⟨xs, _, hs, ht⟩ := h
  rw [IntStack.isEmpty_eq hs] at hne
  cases xs with
  | nil => simp at hne
  | cons x xs => exact ⟨x :: xs, by simp, hs, ht⟩

theorem Same.push (h : Same k s t) (x : Int) : Agree (Same (k + 1)) (push s x) (push t x) := by
  obtain ⟨xs, hk, hs, ht⟩ := h
  obtain ⟨s', hrun, hs'⟩ := push_spec hs x
  obtain ⟨t', hrun', ht'⟩ := push_spec ht x
  exact Agree.of_ok hrun hrun' ⟨xs ++ [x], by simpa using hk, hs', ht'⟩

/-- `push`, where it does not matter that there is one more element. -/
theorem Same.push_le (h : Same k s t) (x : Int) : Agree (Same k) (IntStack.push s x)
    (IntStack.push t x) :=
  (h.push x).mono fun _ _ h' => h'.mono (Nat.le_succ k)

theorem Same.popFifo (h : Same (k + 1) s t) :
    Agree (Paired (fun _ => True) (Same k)) (popFifo s) (popFifo t) := by
  obtain ⟨xs, hk, hs, ht⟩ := h
  cases xs with
  | nil => simp at hk
  | cons x xs =>
    obtain ⟨s', hrun, hs'⟩ := popFifo_spec hs
    obtain ⟨t', hrun', ht'⟩ := popFifo_spec ht
    exact Agree.of_ok hrun hrun' (Paired.mk trivial ⟨xs, by simpa using hk, hs', ht'⟩)

theorem Same.pop (h : Same (k + 1) s t) :
    Agree (Paired (fun _ => True) (Same k)) (pop s) (pop t) := by
  obtain ⟨xs, hk, hs, ht⟩ := h
  rcases List.eq_nil_or_concat' xs with rfl | ⟨xs, x, rfl⟩
  · simp at hk
  · obtain ⟨s', hrun, hs'⟩ := pop_spec hs
    obtain ⟨t', hrun', ht'⟩ := pop_spec ht
    exact Agree.of_ok hrun hrun' (Paired.mk trivial ⟨xs, by simpa using hk, hs', ht'⟩)

theorem same_new {size : Nat} (h : 0 < size) : Same 0 (new size) (new size) :=
  ⟨[], le_refl 0, new_holds h, new_holds h⟩

theorem same_clear (hs : 0 < s.sizeIncrease) (ht : 0 < t.sizeIncrease) :
    Same 0 (clear s) (clear t) :=
  ⟨[], le_refl 0, clear_holds hs, clear_holds ht⟩

theorem Same.increase (h : Same k s t) : 0 < s.sizeIncrease ∧ 0 < t.sizeIncrease := by
  obtain ⟨xs, _, hs, ht⟩ := h
  exact ⟨hs.increase, ht.increase⟩

end IntStack

/-! ## Heaps -/

namespace DistanceHeap

/-- An id that can be searched for. -/
def IsId (id : Int) : Prop := 0 ≤ id ∧ id < MAX_VALUE

/-- The heaps have the same ids with the same distances, in the same order. -/
def Same (h h' : DistanceHeap) : Prop :=
  ∃ xs ds ids, (∀ x ∈ xs, IsId x) ∧ Stores h xs ds ids ∧ Stores h' xs ds ids

variable {h h' : DistanceHeap}

theorem Equal.same_reset (he : Equal h) (he' : Equal h') : Same (reset h) (reset h') :=
  ⟨[], [], [], by simp, he.reset_stores, he'.reset_stores⟩

theorem Same.equal (hs : Same h h') : Equal h ∧ Equal h' := by
  obtain ⟨xs, ds, ids, _, hh, hh'⟩ := hs
  exact ⟨hh.equal, hh'.equal⟩

theorem Same.isEmpty_eq (hs : Same h h') : isEmpty h' = isEmpty h := by
  obtain ⟨xs, ds, ids, _, hh, hh'⟩ := hs
  rw [hh.isEmpty_eq, hh'.isEmpty_eq]

theorem Same.add (hs : Same h h') {id : Int} (hid : IsId id) (d : Int) :
    Agree Same (add h id d) (add h' id d) := by
  obtain ⟨xs, ds, ids, hxs, hh, hh'⟩ := hs
  by_cases hmem : id ∈ xs
  · obtain ⟨i, hi, rfl⟩ := BinHeap.exists_idAt_of_mem (hh.perm.mem_iff.mpr hmem)
    obtain ⟨g, hrun, hg⟩ := hh.add_update hi d
    obtain ⟨g', hrun', hg'⟩ := hh'.add_update hi d
    exact Agree.of_ok hrun hrun' ⟨_, _, _, hxs, hg, hg'⟩
  · obtain ⟨g, hrun, hg⟩ := hh.add_insert hid.2 hmem d
    obtain ⟨g', hrun', hg'⟩ := hh'.add_insert hid.2 hmem d
    refine Agree.of_ok hrun hrun' ⟨_, _, _, ?_, hg, hg'⟩
    intro x hx
    rcases mem_insertIdx_rank.mp hx with rfl | hx
    · exact hid
    · exact hxs x hx

theorem Same.getNext (hs : Same h h') (hne : isEmpty h = false) :
    Agree (Paired IsId Same) (getNext h) (getNext h') := by
  obtain ⟨xs, ds, ids, hxs, hh, hh'⟩ := hs
  have hsub : ∀ n, ∀ x ∈ xs.eraseIdx n, IsId x := fun n x hx => hxs x (List.mem_of_mem_eraseIdx hx)
  cases ids with
  | nil =>
    rw [hh.isEmpty_eq] at hne
    simp at hne
  | cons r tail =>
    have hr : IsId r := hxs r (hh.perm.mem_iff.mp List.mem_cons_self)
    rcases List.eq_nil_or_concat' tail with rfl | ⟨mid, last, rfl⟩
    · obtain ⟨g, hrun, hg⟩ := hh.getNext_last
      obtain ⟨g', hrun', hg'⟩ := hh'.getNext_last
      exact Agree.of_ok hrun hrun' (Paired.mk hr ⟨_, _, _, hsub _, hg, hg'⟩)
    · obtain ⟨g, hrun, hg⟩ := hh.getNext_sink
      obtain ⟨g', hrun', hg'⟩ := hh'.getNext_sink
      exact Agree.of_ok hrun hrun' (Paired.mk hr ⟨_, _, _, hsub _, hg, hg'⟩)

end DistanceHeap

/-! ## Temporary labels -/

/-- `get` reads the elements and nothing behind them. -/
theorem OrderedIntSet.Holds.get_eq {s : OrderedIntSet} {xs : List Int} (h : s.Holds xs) (idx : Int) :
    s.get idx = rd xs idx := by
  obtain ⟨rest, helem, _⟩ := h.array
  have hcount := h.count
  unfold OrderedIntSet.get
  split_ifs with hidx
  · rw [rd_of_length_le (by omega)]
    rfl
  · rw [helem, rd_append_left (by omega)]

namespace TempLabels

/-- What `addInfo` may hold: both a node and the node that the value encodes can
be searched for. -/
def IsInfo (info : Int) : Prop := info < MAX_VALUE ∧ (info + 2) * (-1) < MAX_VALUE

/-- A node and what the other three columns hold for it, row by row. -/
structure Rows (xs ds es infos : List Int) : Prop where
  sorted : xs.Pairwise (· < ·)
  small : ∀ x ∈ xs, x < MAX_VALUE
  dist : ds.length = xs.length
  edge : es.length = xs.length
  addInfo : infos.length = xs.length
  info : ∀ info ∈ infos, IsInfo info

/-- The four lists; behind the nodes there may be the dummies `l`. -/
structure Stores (t : TempLabels) (xs l ds es infos : List Int) : Prop where
  ordered : t.label.orderedBySorting = true
  label : t.label.Holds (xs ++ l)
  dist : t.dist.Holds ds
  edge : t.edge.Holds es
  addInfo : t.addInfo.Holds infos

/-- The temporary labels of both are the same, with the dummies `l` behind the nodes. -/
def Same (l : List Int) (t t' : TempLabels) : Prop :=
  (∀ x ∈ l, x = MAX_VALUE) ∧ ∃ xs ds es infos, Rows xs ds es infos ∧
    Stores t xs l ds es infos ∧ Stores t' xs l ds es infos

variable {t t' : TempLabels} {l : List Int} {xs ds es infos : List Int}

theorem Stores.clear (h : Stores t xs l ds es infos) : t.clear.Cleared :=
  ⟨h.ordered, OrderedIntSet.clear_holds h.label.increase,
    OrderedIntSet.clear_holds h.dist.increase, OrderedIntSet.clear_holds h.edge.increase,
    OrderedIntSet.clear_holds h.addInfo.increase⟩

theorem Same.clear (h : Same l t t') : t.clear.Cleared ∧ t'.clear.Cleared := by
  obtain ⟨_, xs, ds, es, infos, _, hs, hs'⟩ := h
  exact ⟨hs.clear, hs'.clear⟩

theorem Same.size_eq (h : Same l t t') : t'.label.size = t.label.size := by
  obtain ⟨_, xs, ds, es, infos, _, hs, hs'⟩ := h
  rw [OrderedIntSet.size_eq hs.label, OrderedIntSet.size_eq hs'.label]

theorem Same.label_get (h : Same l t t') (idx : Int) : t'.label.get idx = t.label.get idx := by
  obtain ⟨_, xs, ds, es, infos, _, hs, hs'⟩ := h
  rw [hs.label.get_eq, hs'.label.get_eq]

theorem Same.dist_get (h : Same l t t') (idx : Int) : t'.dist.get idx = t.dist.get idx := by
  obtain ⟨_, xs, ds, es, infos, _, hs, hs'⟩ := h
  rw [hs.dist.get_eq, hs'.dist.get_eq]

theorem Same.edge_get (h : Same l t t') (idx : Int) : t'.edge.get idx = t.edge.get idx := by
  obtain ⟨_, xs, ds, es, infos, _, hs, hs'⟩ := h
  rw [hs.edge.get_eq, hs'.edge.get_eq]

theorem Same.addInfo_get (h : Same l t t') (idx : Int) :
    t'.addInfo.get idx = t.addInfo.get idx := by
  obtain ⟨_, xs, ds, es, infos, _, hs, hs'⟩ := h
  rw [hs.addInfo.get_eq, hs'.addInfo.get_eq]

theorem Same.isInfo (h : Same l t t') {idx info : Int} (hinfo : t.addInfo.get idx = .ok info) :
    IsInfo info := by
  obtain ⟨_, xs, ds, es, infos, hrows, hs, _⟩ := h
  rw [hs.addInfo.get_eq] at hinfo
  exact hrows.info info (mem_of_rd hinfo)

/-- The index of a node is the same in both. -/
theorem Same.getIdx (h : Same l t t') {x : Int} (hx : x < MAX_VALUE) :
    ∃ idx, t.label.getIdx x = .ok idx ∧ t'.label.getIdx x = .ok idx := by
  obtain ⟨hl, xs, ds, es, infos, hrows, hs, hs'⟩ := h
  exact ⟨_, OrderedIntSet.getIdx_spec hs.ordered hs.label hl hrows.sorted hrows.small hx,
    OrderedIntSet.getIdx_spec hs'.ordered hs'.label hl hrows.sorted hrows.small hx⟩

theorem Cleared.same (h : Cleared t) (h' : Cleared t') : Same [] t t' :=
  ⟨by simp, [], [], [], [], ⟨List.Pairwise.nil, by simp, rfl, rfl, rfl, by simp⟩,
    ⟨h.ordered, h.label, h.dist, h.edge, h.addInfo⟩,
    ⟨h'.ordered, h'.label, h'.dist, h'.edge, h'.addInfo⟩⟩

/-- The first row. -/
theorem Cleared.same_insertTail (h : Cleared t) (h' : Cleared t') {x info : Int}
    (hx : x < MAX_VALUE) (hinfo : IsInfo info) (d e : Int) :
    Agree (Same []) (t.insertTail x d e info) (t'.insertTail x d e info) := by
  have hrows : Rows [x] [d] [e] [info] :=
    ⟨List.pairwise_singleton _ _, by simpa using hx, rfl, rfl, rfl, by simpa using hinfo⟩
  have hrun : ∀ {t : TempLabels}, Cleared t →
      ∃ u, t.insertTail x d e info = .ok u ∧ Stores u [x] [] [d] [e] [info] := by
    intro t h
    obtain ⟨s₀, h₀, hord, hs₀⟩ := OrderedIntSet.insertTail_spec h.label x
    obtain ⟨s₁, h₁, _, hs₁⟩ := OrderedIntSet.insertTail_spec h.dist d
    obtain ⟨s₂, h₂, _, hs₂⟩ := OrderedIntSet.insertTail_spec h.edge e
    obtain ⟨s₃, h₃, _, hs₃⟩ := OrderedIntSet.insertTail_spec h.addInfo info
    refine ⟨⟨s₀, s₁, s₂, s₃⟩, ?_, hord.trans h.ordered, hs₀, hs₁, hs₂, hs₃⟩
    simp only [TempLabels.insertTail, h₀, h₁, h₂, h₃, ok_bind, pure_eq_ok]
  obtain ⟨u, hu, hs⟩ := hrun h
  obtain ⟨u', hu', hs'⟩ := hrun h'
  exact Agree.of_ok hu hu' ⟨by simp, _, _, _, _, hrows, hs, hs'⟩

theorem Stores.insertAtIdx (h : Stores t xs [] ds es infos) (hrows : Rows xs ds es infos)
    (x d e info : Int) :
    ∃ u, t.insertAtIdx x d e info (rank xs x : Int) = .ok u ∧
      Stores u (xs.insertIdx (rank xs x) x) [] (ds.insertIdx (rank xs x) d)
        (es.insertIdx (rank xs x) e) (infos.insertIdx (rank xs x) info) := by
  have hle := rank_le_length xs x
  have hlabel := h.label
  rw [List.append_nil] at hlabel
  obtain ⟨s₀, h₀, hord, hs₀⟩ := OrderedIntSet.insertAtIdx_spec hlabel hle x
  obtain ⟨s₁, h₁, _, hs₁⟩ := OrderedIntSet.insertAtIdx_spec h.dist (hrows.dist ▸ hle) d
  obtain ⟨s₂, h₂, _, hs₂⟩ := OrderedIntSet.insertAtIdx_spec h.edge (hrows.edge ▸ hle) e
  obtain ⟨s₃, h₃, _, hs₃⟩ := OrderedIntSet.insertAtIdx_spec h.addInfo (hrows.addInfo ▸ hle) info
  refine ⟨⟨s₀, s₁, s₂, s₃⟩, ?_, hord.trans h.ordered, ?_, hs₁, hs₂, hs₃⟩
  · simp only [TempLabels.insertAtIdx, h₀, h₁, h₂, h₃, ok_bind, pure_eq_ok]
  · rw [List.append_nil]
    exact hs₀

theorem Stores.updateValue (h : Stores t xs l ds es infos) (hrows : Rows xs ds es infos) {n : Nat}
    (hn : n < xs.length) (d e info : Int) :
    ∃ u, t.updateValue d e info n = .ok u ∧
      Stores u xs l (ds.set n d) (es.set n e) (infos.set n info) := by
  obtain ⟨s₁, h₁, _, hs₁⟩ := OrderedIntSet.updateValue_spec h.dist (hrows.dist ▸ hn) d
  obtain ⟨s₂, h₂, _, hs₂⟩ := OrderedIntSet.updateValue_spec h.edge (hrows.edge ▸ hn) e
  obtain ⟨s₃, h₃, _, hs₃⟩ := OrderedIntSet.updateValue_spec h.addInfo (hrows.addInfo ▸ hn) info
  refine ⟨{ t with dist := s₁, edge := s₂, addInfo := s₃ }, ?_, h.ordered, h.label, hs₁, hs₂, hs₃⟩
  simp only [TempLabels.updateValue, h₁, h₂, h₃, ok_bind, pure_eq_ok]

theorem Rows.insertIdx (h : Rows xs ds es infos) {x info : Int} (hx : x < MAX_VALUE)
    (hnot : x ∉ xs) (hinfo : IsInfo info) (d e : Int) :
    Rows (xs.insertIdx (rank xs x) x) (ds.insertIdx (rank xs x) d) (es.insertIdx (rank xs x) e)
      (infos.insertIdx (rank xs x) info) := by
  have hle := rank_le_length xs x
  have hlen : ∀ {ys : List Int} (y : Int), ys.length = xs.length →
      (ys.insertIdx (rank xs x) y).length = (xs.insertIdx (rank xs x) x).length := by
    intro ys y hys
    rw [List.length_insertIdx_of_le_length (hys ▸ hle), List.length_insertIdx_of_le_length hle, hys]
  refine ⟨pairwise_insertIdx_rank h.sorted hnot, ?_, hlen d h.dist, hlen e h.edge,
    hlen info h.addInfo, ?_⟩
  · intro y hy
    rcases mem_insertIdx_rank.mp hy with rfl | hy
    · exact hx
    · exact h.small y hy
  · intro i hi
    rcases List.eq_or_mem_of_mem_insertIdx hi with rfl | hi
    · exact hinfo
    · exact h.info i hi

theorem Rows.set (h : Rows xs ds es infos) {info : Int} (hinfo : IsInfo info) (n : Nat) (d e : Int) :
    Rows xs (ds.set n d) (es.set n e) (infos.set n info) := by
  refine ⟨h.sorted, h.small, by rw [List.length_set, h.dist], by rw [List.length_set, h.edge],
    by rw [List.length_set, h.addInfo], ?_⟩
  intro i hi
  rcases List.mem_or_eq_of_mem_set hi with hi | rfl
  · exact h.info i hi
  · exact hinfo

/-- A row is inserted at the index that `getIdx` encodes, when there is none for the
node, and overwritten there otherwise. -/
theorem Same.put (h : Same [] t t') {x : Int} (hx : x < MAX_VALUE) :
    ∃ idx, t.label.getIdx x = .ok idx ∧ t'.label.getIdx x = .ok idx ∧
      (idx < 0 → ∀ d e info, IsInfo info → Agree (Same [])
        (t.insertAtIdx x d e info ((idx + 1) * (-1)))
        (t'.insertAtIdx x d e info ((idx + 1) * (-1)))) ∧
      (¬ idx < 0 → ∀ d e info, IsInfo info → Agree (Same [])
        (t.updateValue d e info idx) (t'.updateValue d e info idx)) := by
  obtain ⟨idx, hidx, hidx'⟩ := h.getIdx hx
  obtain ⟨hl, xs, ds, es, infos, hrows, hs, hs'⟩ := h
  have henc := OrderedIntSet.getIdx_spec hs.ordered hs.label hl hrows.sorted hrows.small hx
  rw [hidx, Except.ok.injEq] at henc
  refine ⟨idx, hidx, hidx', ?_, ?_⟩
  · intro hneg d e info hinfo
    have hnot : x ∉ xs := by
      intro hmem
      rw [encodeRank, if_pos hmem] at henc
      omega
    have hrank : (idx + 1) * (-1) = (rank xs x : Int) := by
      rw [henc, encodeRank, if_neg hnot]
      ring
    obtain ⟨u, hu, hs₁⟩ := hs.insertAtIdx hrows x d e info
    obtain ⟨u', hu', hs₁'⟩ := hs'.insertAtIdx hrows x d e info
    rw [hrank]
    exact Agree.of_ok hu hu' ⟨hl, _, _, _, _, hrows.insertIdx hx hnot hinfo d e, hs₁, hs₁'⟩
  · intro hpos d e info hinfo
    have hmem : x ∈ xs := by
      by_contra hnot
      rw [encodeRank, if_neg hnot] at henc
      omega
    have hrank : idx = (rank xs x : Int) := by
      rw [henc, encodeRank, if_pos hmem]
    have hlt := rank_lt_length hrows.sorted hmem
    obtain ⟨u, hu, hs₁⟩ := hs.updateValue hrows hlt d e info
    obtain ⟨u', hu', hs₁'⟩ := hs'.updateValue hrows hlt d e info
    rw [hrank]
    exact Agree.of_ok hu hu' ⟨hl, _, _, _, _, hrows.set hinfo _ d e, hs₁, hs₁'⟩

theorem Same.makeSpace (h : Same l t t') (k : Int) : Same l (t.makeSpace k) (t'.makeSpace k) := by
  obtain ⟨hl, xs, ds, es, infos, hrows, hs, hs'⟩ := h
  have hspace : ∀ {t : TempLabels}, Stores t xs l ds es infos →
      Stores (t.makeSpace k) xs l ds es infos := by
    intro t h
    obtain ⟨hord, h₀⟩ := OrderedIntSet.makeSpace_holds h.label k
    exact ⟨hord.trans h.ordered, h₀, (OrderedIntSet.makeSpace_holds h.dist k).2,
      (OrderedIntSet.makeSpace_holds h.edge k).2, (OrderedIntSet.makeSpace_holds h.addInfo k).2⟩
  exact ⟨hl, xs, ds, es, infos, hrows, hspace hs, hspace hs'⟩

/-- The dummy behind the nodes. -/
theorem Same.insertTail_label (h : Same [] t t') : Agree
    (fun s s' => Same [MAX_VALUE] { t with label := s } { t' with label := s' })
    (t.label.insertTail MAX_VALUE) (t'.label.insertTail MAX_VALUE) := by
  obtain ⟨_, xs, ds, es, infos, hrows, hs, hs'⟩ := h
  obtain ⟨s₀, h₀, hord, hs₀⟩ := OrderedIntSet.insertTail_spec hs.label MAX_VALUE
  obtain ⟨s₀', h₀', hord', hs₀'⟩ := OrderedIntSet.insertTail_spec hs'.label MAX_VALUE
  rw [List.append_nil] at hs₀ hs₀'
  exact Agree.of_ok h₀ h₀' ⟨by simp, xs, ds, es, infos, hrows,
    ⟨hord.trans hs.ordered, hs₀, hs.dist, hs.edge, hs.addInfo⟩,
    ⟨hord'.trans hs'.ordered, hs₀', hs'.dist, hs'.edge, hs'.addInfo⟩⟩

end TempLabels

end SeaRouter
