import SeaRouter.HubLabelCreation.NodeLabels
import SeaRouter.HubLabelCreation.LabelCreator
import SeaRouter.Lib.BinHeap

/-!
# `hublablecreation/LabelCreator.java`: the order of the label calculation

`createHLCalcOrder` sorts the nodes by falling level and finds the indices at
which the next level begins.  `createHLCalcOrder_spec` says what the label
calculation needs of both: the order is a permutation of the nodes, and a change
index lies between two nodes exactly when their levels differ.
-/

namespace SeaRouter

open Java BinHeap

namespace LabelCreator

/-- One comparison of the sort, between the nodes at `j - 1` and at `j`. -/
def sortStep (levels : List Int) (calcOrder : List Int) (j : Int) : Run (List Int) := do
  let prev ← rd calcOrder (j - 1)
  let curr ← rd calcOrder j
  if (← rd levels prev) < (← rd levels curr) then
    -- swap elements
    let calcOrder ← wr calcOrder (j - 1) curr
    wr calcOrder j prev
  else return calcOrder

/-- The two nested loops that sort the nodes by falling level. -/
def sortByLevel (levels : List Int) (calcOrder : List Int) : Run (List Int) :=
  (indices 0 calcOrder.length).foldlM
    (fun order i => (indices 1 (calcOrder.length - i)).foldlM (sortStep levels) order) calcOrder

/-- One iteration of the loop that looks for the next level; the state has the
indices found and the level of the node before. -/
def changeStep (levels calcOrder : List Int) (state : OrderedIntSet × Int) (i : Int) :
    Run (OrderedIntSet × Int) := do
  let (changeIndices, prevLvl) := state
  let currLvl ← rd levels (← rd calcOrder i)
  if currLvl < prevLvl then return (← changeIndices.insertTail i, currLvl)
  else return (changeIndices, currLvl)

/-- The second part of `createHLCalcOrder`. -/
def findChanges (levels calcOrder : List Int) : Run OrderedIntSet := do
  let changeIndices ← (OrderedIntSet.new false 650 10).insertTail 0
  let (changeIndices, _) ← (indices 0 calcOrder.length).foldlM (changeStep levels calcOrder)
    (changeIndices, 0)
  changeIndices.insertTail calcOrder.length

def createHLCalcOrder (levels : List Int) (nodeCount : Nat) :
    Run (List Int × OrderedIntSet) := do
  let calcOrder ← sortByLevel levels (indices 0 nodeCount)
  return (calcOrder, ← findChanges levels calcOrder)

/-! ## The sort -/

/-- The level of the node at a position. -/
def levelAt (levels order : List Int) (i : Nat) : Int := HLDijkstra.level levels (idAt order i)

variable {levels order order₀ : List Int} {n : Nat}

/-- The order holds the nodes `0` to `n - 1`, and each of them has a level. -/
structure Nodes (n : Nat) (levels order : List Int) : Prop where
  levelsLength : levels.length = n
  perm : order.Perm (indices 0 n)

theorem Nodes.length (h : Nodes n levels order) : order.length = n := by
  rw [h.perm.length_eq, indices, List.length_map, List.length_range]
  omega

theorem Nodes.node (h : Nodes n levels order) {x : Int} (hx : x ∈ order) : 0 ≤ x ∧ x < n :=
  mem_indices.mp (h.perm.mem_iff.mp hx)

theorem Nodes.rd_level (h : Nodes n levels order) {i : Nat} (hi : i < n) :
    rd order i = .ok (idAt order i) ∧ rd levels (idAt order i) = .ok (levelAt levels order i) := by
  have hlen : i < order.length := by rw [h.length]; exact hi
  obtain ⟨h0, h1⟩ := h.node (idAt_mem hlen)
  obtain ⟨x, hx⟩ := exists_rd (a := levels) h0 (by rw [h.levelsLength]; exact h1)
  refine ⟨rd_of_getElem? (by rw [idAt_eq_getElem hlen, List.getElem?_eq_getElem]), ?_⟩
  rw [levelAt, HLDijkstra.level, hx]
  rfl

theorem Nodes.swapAt (h : Nodes n levels order) {i j : Nat} (hi : i < n) (hj : j < n) :
    Nodes n levels (swapAt order i j) :=
  ⟨h.levelsLength, (swapAt_perm (by rw [h.length]; exact hi) (by rw [h.length]; exact hj)).trans
    h.perm⟩

/-- The positions from `m` on are sorted, and no node before them has a lower
level than one of them. -/
def SortedFrom (levels order : List Int) (m : Nat) : Prop :=
  ∀ i j : Nat, i < j → m ≤ j → j < order.length → levelAt levels order j ≤ levelAt levels order i

/-- Positions below `m` may be exchanged. -/
theorem SortedFrom.swapAt {m i j : Nat} (h : SortedFrom levels order m) (hi : i < m) (hj : j < m)
    (hm : m ≤ order.length) : SortedFrom levels (swapAt order i j) m := by
  intro a b hab hmb hb
  rw [swapAt_length] at hb
  have hswap := idAt_swapAt (h := order) (i := i) (j := j) (by omega) (by omega)
  have hleft : ∃ a', a' < b ∧ idAt (BinHeap.swapAt order i j) a = idAt order a' := by
    rw [hswap]
    split_ifs with h1 h2
    · exact ⟨j, by omega, rfl⟩
    · exact ⟨i, by omega, rfl⟩
    · exact ⟨a, hab, rfl⟩
  obtain ⟨a', ha', heq⟩ := hleft
  have hright : idAt (BinHeap.swapAt order i j) b = idAt order b := by
    rw [hswap, if_neg (by omega), if_neg (by omega)]
  rw [levelAt, levelAt, heq, hright]
  exact h a' b ha' hmb hb

/-- The order at the index `j` of a pass over the first `m` positions: the node
at `j - 1` has the lowest level of those before. -/
structure Passing (n : Nat) (levels : List Int) (m j : Nat) (order : List Int) : Prop where
  nodes : Nodes n levels order
  sorted : SortedFrom levels order m
  lowest : ∀ i : Nat, i < j → levelAt levels order (j - 1) ≤ levelAt levels order i

theorem sortStep_spec {m j : Nat} (hj0 : 0 < j) (hjm : j < m) (hm : m ≤ n)
    (h : Passing n levels m j order) :
    ∃ order', sortStep levels order j = .ok order' ∧ Passing n levels m (j + 1) order' := by
  have hlen := h.nodes.length
  obtain ⟨hrp, hlp⟩ := h.nodes.rd_level (i := j - 1) (by omega)
  obtain ⟨hrc, hlc⟩ := h.nodes.rd_level (i := j) (by omega)
  have hcast : ((j : Int) - 1) = ((j - 1 : Nat) : Int) := by omega
  unfold sortStep
  rw [hcast, hrp, ok_bind, hrc, ok_bind, hlp, ok_bind, hlc, ok_bind]
  by_cases hlt : levelAt levels order (j - 1) < levelAt levels order j
  · rw [if_pos hlt, wr_of_bounds _ (by omega) (by omega), ok_bind,
      wr_of_bounds _ (by omega) (by rw [List.length_set]; omega), Int.toNat_natCast,
      Int.toNat_natCast]
    refine ⟨swapAt order (j - 1) j, rfl, h.nodes.swapAt (by omega) (by omega),
      h.sorted.swapAt (by omega) (by omega) (by omega), ?_⟩
    intro i hi
    have hswap := idAt_swapAt (h := order) (i := j - 1) (j := j) (by omega) (by omega)
    rw [levelAt, levelAt, hswap, hswap, Nat.add_sub_cancel, if_neg (by omega), if_pos rfl]
    split_ifs with h1 h2
    · exact le_of_lt hlt
    · exact le_refl _
    · exact h.lowest i (by omega)
  · rw [if_neg hlt]
    refine ⟨order, rfl, h.nodes, h.sorted, ?_⟩
    intro i hi
    rw [Nat.add_sub_cancel]
    by_cases hij : i = j
    · rw [hij]
    · have := h.lowest i (by omega)
      omega

theorem sortByLevel_spec (h : Nodes n levels order) :
    ∃ order', sortByLevel levels order = .ok order' ∧ Nodes n levels order' ∧
      SortedFrom levels order' 0 := by
  have hlen := h.length
  obtain ⟨order', hrun, hnodes, hsorted⟩ := foldlM_indices
    (f := fun order' i => (indices 1 (order.length - i)).foldlM (sortStep levels) order')
    (P := fun i order' => Nodes n levels order' ∧ SortedFrom levels order' (n - i))
    (Nat.zero_le n) (b := order)
    ⟨h, fun i j hij hm hj => by omega⟩ (by
      intro i order₁ _ hi hP
      obtain ⟨hnodes, hsorted⟩ := hP
      by_cases hone : n - i = 1
      · -- the last pass compares nothing
        refine ⟨order₁, ?_, hnodes, ?_⟩
        · have hnil : indices 1 ((order.length : Int) - i) = [] := by
            rw [indices, show ((order.length : Int) - i - 1).toNat = 0 by omega]
            rfl
          simp only [hnil]
          rfl
        · intro a b hab _ hb
          exact hsorted a b hab (by omega) hb
      · obtain ⟨order₂, hpass, hp⟩ := foldlM_indices (f := sortStep levels)
          (P := fun j order' => Passing n levels (n - i) j order') (show 1 ≤ n - i by omega)
          (b := order₁)
          ⟨hnodes, hsorted, by
            intro a ha
            obtain rfl : a = 0 := by omega
            exact le_refl _⟩
          (fun j order' h1 h2 hp => sortStep_spec (by omega) h2 (by omega) hp)
        refine ⟨order₂, ?_, hp.nodes, ?_⟩
        · have hcast : ((order.length : Int) - i) = ((n - i : Nat) : Int) := by omega
          simp only [hcast]
          exact hpass
        · intro a b hab hmb hb
          by_cases hbm : n - i ≤ b
          · exact hp.sorted a b hab hbm hb
          · obtain rfl : b = n - i - 1 := by omega
            exact hp.lowest a (by omega))
  refine ⟨order', ?_, hnodes, ?_⟩
  · unfold sortByLevel
    rw [hlen] at hrun ⊢
    exact hrun
  · rw [Nat.sub_self] at hsorted
    exact hsorted

/-! ## The change indices -/

/-- The change indices before the position `i`: one of them lies between two
positions exactly when the second one has a lower level. -/
structure Changes (levels order : List Int) (i : Nat) (cs : List Int) : Prop where
  head : cs.head? = some 0
  sorted : cs.Pairwise (· < ·)
  range : ∀ c ∈ cs, 0 ≤ c ∧ (c = 0 ∨ c < i)
  between : ∀ a b : Nat, a < b → b < i →
    (levelAt levels order b < levelAt levels order a ↔ ∃ c ∈ cs, (a : Int) < c ∧ c ≤ b)

theorem changeStep_spec {i : Nat} {cs : List Int} {set : OrderedIntSet} {prev : Int}
    (hn : Nodes n levels order) (hnn : ∀ l ∈ levels, 0 ≤ l) (hs : SortedFrom levels order 0)
    (hi : i < n) (h : Changes levels order i cs) (hset : OrderedIntSet.Holds set cs)
    (hprev : prev = if i = 0 then 0 else levelAt levels order (i - 1)) :
    ∃ set' cs', changeStep levels order (set, prev) i = .ok (set', levelAt levels order i) ∧
      OrderedIntSet.Holds set' cs' ∧ Changes levels order (i + 1) cs' := by
  obtain ⟨hrd, hlevel⟩ := hn.rd_level hi
  have hlen := hn.length
  have hrun : changeStep levels order (set, prev) i = if levelAt levels order i < prev then do
        return (← set.insertTail i, levelAt levels order i)
      else return (set, levelAt levels order i) := by
    unfold changeStep
    simp only [hrd, ok_bind, hlevel]
  rw [hrun]
  by_cases hzero : i = 0
  · have hpos := hnn _ (mem_of_rd hlevel)
    rw [if_pos hzero] at hprev
    rw [if_neg (by omega)]
    refine ⟨set, cs, rfl, hset, h.head, h.sorted, ?_, by omega⟩
    intro c hc
    have := h.range c hc
    omega
  · rw [if_neg hzero] at hprev
    subst hprev
    have hmono : ∀ a : Nat, a < i → levelAt levels order (i - 1) ≤ levelAt levels order a := by
      intro a ha
      by_cases hai : a = i - 1
      · rw [hai]
      · exact hs a (i - 1) (by omega) (Nat.zero_le _) (by omega)
    by_cases hlt : levelAt levels order i < levelAt levels order (i - 1)
    · rw [if_pos hlt]
      obtain ⟨set', hins, _, hset'⟩ := OrderedIntSet.insertTail_spec hset i
      refine ⟨set', cs ++ [(i : Int)], by rw [hins]; rfl, hset', ?_, ?_, ?_, ?_⟩
      · rw [List.head?_append, h.head]
        rfl
      · rw [List.pairwise_append]
        refine ⟨h.sorted, by simp, ?_⟩
        intro c hc d hd
        obtain rfl : d = i := by simpa using hd
        have := h.range c hc
        omega
      · intro c hc
        rcases List.mem_append.mp hc with hc | hc
        · have := h.range c hc
          omega
        · obtain rfl : c = i := by simpa using hc
          omega
      · intro a b hab hb
        by_cases hbi : b = i
        · subst hbi
          constructor
          · intro _
            exact ⟨b, by simp, by omega, by omega⟩
          · intro _
            have := hmono a hab
            omega
        · rw [h.between a b hab (by omega)]
          constructor
          · intro hex
            obtain ⟨c, hc, hac, hcb⟩ := hex
            exact ⟨c, List.mem_append_left _ hc, hac, hcb⟩
          · intro hex
            obtain ⟨c, hc, hac, hcb⟩ := hex
            rcases List.mem_append.mp hc with hc | hc
            · exact ⟨c, hc, hac, hcb⟩
            · obtain rfl : c = i := by simpa using hc
              omega
    · rw [if_neg hlt]
      have heq : levelAt levels order i = levelAt levels order (i - 1) := by
        have := hs (i - 1) i (by omega) (Nat.zero_le _) (by omega)
        omega
      refine ⟨set, cs, rfl, hset, h.head, h.sorted, ?_, ?_⟩
      · intro c hc
        have := h.range c hc
        omega
      · intro a b hab hb
        by_cases hbi : b = i
        · subst hbi
          rw [heq]
          by_cases hai : a = b - 1
          · subst hai
            constructor
            · intro habs
              omega
            · intro hex
              obtain ⟨c, hc, hac, hcb⟩ := hex
              have := h.range c hc
              omega
          · rw [h.between a (b - 1) (by omega) (by omega)]
            constructor
            · intro hex
              obtain ⟨c, hc, hac, hcb⟩ := hex
              exact ⟨c, hc, hac, by omega⟩
            · intro hex
              obtain ⟨c, hc, hac, hcb⟩ := hex
              have := h.range c hc
              exact ⟨c, hc, hac, by omega⟩
        · exact h.between a b hab (by omega)

theorem findChanges_spec (hn : Nodes n levels order) (hnn : ∀ l ∈ levels, 0 ≤ l)
    (hs : SortedFrom levels order 0) :
    ∃ set cs, findChanges levels order = .ok set ∧ Changes levels order n cs ∧
      OrderedIntSet.Holds set (cs ++ [(n : Int)]) := by
  have hlen := hn.length
  obtain ⟨set₀, hins₀, _, hset₀⟩ := OrderedIntSet.insertTail_spec
    (OrderedIntSet.new_holds false 650 (by decide : 0 < 10)) 0
  obtain ⟨⟨set, prev⟩, hrun, cs, hset, hc, _⟩ := foldlM_indices
    (f := changeStep levels order)
    (P := fun i st => ∃ cs, OrderedIntSet.Holds st.1 cs ∧ Changes levels order i cs ∧
      st.2 = if i = 0 then 0 else levelAt levels order (i - 1)) (Nat.zero_le n) (b := (set₀, 0))
    ⟨[0], hset₀, ⟨rfl, by simp, by simp, by omega⟩, rfl⟩ (by
      rintro i ⟨set, prev⟩ _ hi ⟨cs, hset, hc, hprev⟩
      obtain ⟨set', cs', hstep, hset', hc'⟩ := changeStep_spec hn hnn hs hi hc hset hprev
      exact ⟨(set', levelAt levels order i), hstep, cs', hset', hc', rfl⟩)
  obtain ⟨set', hins, _, hset'⟩ := OrderedIntSet.insertTail_spec hset (n : Int)
  refine ⟨set', cs, ?_, hc, hset'⟩
  unfold findChanges
  rw [hlen, hins₀, ok_bind]
  simp only [Nat.cast_zero] at hrun
  rw [hrun, ok_bind]
  exact hins

/-- The order of the label calculation. -/
theorem createHLCalcOrder_spec (hlen : levels.length = n) (hnn : ∀ l ∈ levels, 0 ≤ l) :
    ∃ order set cs, createHLCalcOrder levels n = .ok (order, set) ∧ Nodes n levels order ∧
      SortedFrom levels order 0 ∧ Changes levels order n cs ∧
      OrderedIntSet.Holds set (cs ++ [(n : Int)]) := by
  have hunsorted : Nodes n levels (indices 0 n) := ⟨hlen, List.Perm.refl _⟩
  obtain ⟨order, hsort, hn, hs⟩ := sortByLevel_spec hunsorted
  obtain ⟨set, cs, hfind, hc, hset⟩ := findChanges_spec hn hnn hs
  refine ⟨order, set, cs, ?_, hn, hs, hc, hset⟩
  unfold createHLCalcOrder
  rw [hsort, ok_bind, hfind]
  rfl

/-! ## Batches -/

/-- The positions of the batch `k` begin at the change index `k`. -/
structure Batch (n : Nat) (cs : List Int) (k lo hi : Nat) : Prop where
  lo : (cs ++ [(n : Int)])[k]? = some (lo : Int)
  hi : (cs ++ [(n : Int)])[k + 1]? = some (hi : Int)

/-- The change indices are positions, in order. -/
theorem Changes.batch {cs : List Int} (h : Changes levels order n cs) {k : Nat}
    (hk : k < cs.length) : ∃ lo hi : Nat, Batch n cs k lo hi ∧ lo ≤ hi ∧ hi ≤ n := by
  have hck := List.getElem?_eq_getElem hk
  generalize cs[k] = c at hck
  have hc := h.range c (List.mem_of_getElem? hck)
  have hlo : (cs ++ [(n : Int)])[k]? = some c := by
    rw [List.getElem?_append_left hk, hck]
  by_cases hlast : k + 1 < cs.length
  · have hdk := List.getElem?_eq_getElem hlast
    generalize cs[k + 1] = d at hdk
    have hd := h.range d (List.mem_of_getElem? hdk)
    have hlt := lt_of_getElem?_of_lt h.sorted hck hdk (Nat.lt_succ_self k)
    refine ⟨c.toNat, d.toNat, ⟨by rw [hlo]; congr 1; omega, ?_⟩, by omega, by omega⟩
    rw [List.getElem?_append_left hlast, hdk]
    congr 1
    omega
  · refine ⟨c.toNat, n, ⟨by rw [hlo]; congr 1; omega, ?_⟩, by omega, le_refl n⟩
    rw [List.getElem?_append_right (by omega), show k + 1 - cs.length = 0 by omega]
    rfl

/-- No change index lies inside of a batch. -/
theorem Batch.between {cs : List Int} {k lo hi : Nat} (h : Changes levels order n cs)
    (hb : Batch n cs k lo hi) {c : Int} (hc : c ∈ cs) : c ≤ lo ∨ (hi : Int) ≤ c := by
  obtain ⟨i, hi'⟩ := List.mem_iff_getElem?.mp hc
  have hlt := (List.getElem?_eq_some_iff.mp hi').1
  have hlo := hb.lo
  have hhi := hb.hi
  by_cases hik : i ≤ k
  · left
    rcases Nat.lt_or_eq_of_le hik with hlt' | rfl
    · by_cases hk : k < cs.length
      · rw [List.getElem?_append_left hk] at hlo
        exact le_of_lt (lt_of_getElem?_of_lt h.sorted hi' hlo hlt')
      · have hkl := (List.getElem?_eq_some_iff.mp hlo).1
        have hkl' := (List.getElem?_eq_some_iff.mp hhi).1
        rw [List.length_append, List.length_singleton] at hkl hkl'
        omega
    · rw [List.getElem?_append_left hlt, hi', Option.some.injEq] at hlo
      omega
  · right
    rcases Nat.lt_or_eq_of_le (Nat.lt_of_not_le hik) with hlt' | heq
    · rw [List.getElem?_append_left (by omega)] at hhi
      exact le_of_lt (lt_of_getElem?_of_lt h.sorted hhi hi' hlt')
    · rw [List.getElem?_append_left (by omega), show k + 1 = i from heq, hi',
        Option.some.injEq] at hhi
      omega

/-- A node of a higher level than one of the batch comes before the batch. -/
theorem Batch.before {cs : List Int} {k lo hi : Nat} (h : Changes levels order n cs)
    (hs : SortedFrom levels order 0) (hlen : order.length = n) (hb : Batch n cs k lo hi)
    (hhi : hi ≤ n) {p q : Nat} (hq : q < hi) (hp : p < n)
    (hlevel : levelAt levels order q < levelAt levels order p) : p < lo := by
  by_contra hpl
  by_cases hpq : p < q
  · obtain ⟨c, hc, hpc, hcq⟩ := (h.between p q hpq (by omega)).mp hlevel
    rcases hb.between h hc with hc' | hc'
    · omega
    · omega
  · by_cases heq : p = q
    · rw [heq] at hlevel
      omega
    · have := hs q p (by omega) (Nat.zero_le _) (by omega)
      omega

/-- The nodes of a batch have the same level. -/
theorem Batch.level_eq {cs : List Int} {k lo hi : Nat} (h : Changes levels order n cs)
    (hs : SortedFrom levels order 0) (hlen : order.length = n) (hb : Batch n cs k lo hi)
    (hhi : hi ≤ n) {p q : Nat} (hp0 : lo ≤ p) (hp1 : p < hi) (hq0 : lo ≤ q) (hq1 : q < hi) :
    levelAt levels order p = levelAt levels order q := by
  rcases lt_trichotomy (levelAt levels order p) (levelAt levels order q) with hlt | heq | hlt
  · have := hb.before h hs hlen hhi hp1 (p := q) (by omega) hlt
    omega
  · exact heq
  · have := hb.before h hs hlen hhi hq1 (p := p) (by omega) hlt
    omega

/-- With the levels `0` to `top - 1` in use, the batches are the levels from the
highest one on. -/
theorem Batch.levelAt_eq {cs : List Int} {top : Int} (h : Changes levels order n cs)
    (hs : SortedFrom levels order 0) (hlen : order.length = n)
    (hrange : ∀ p, p < n → 0 ≤ levelAt levels order p ∧ levelAt levels order p < top)
    (hused : ∀ l, 0 ≤ l → l < top → ∃ p, p < n ∧ levelAt levels order p = l) :
    ∀ (k lo hi : Nat), k < cs.length → Batch n cs k lo hi → hi ≤ n → ∀ q, lo ≤ q → q < hi →
      levelAt levels order q = top - 1 - k := by
  have hmono : ∀ a b : Nat, a ≤ b → b < n → levelAt levels order b ≤ levelAt levels order a := by
    intro a b hab hb
    rcases Nat.lt_or_eq_of_le hab with hlt | rfl
    · exact hs a b hlt (Nat.zero_le _) (by omega)
    · exact le_refl _
  intro k
  induction k with
  | zero =>
    intro lo hi hk hb hhi q hq0 hq1
    have hlo := hb.lo
    rw [List.getElem?_append_left hk, ← List.head?_eq_getElem?, h.head, Option.some.injEq] at hlo
    rw [hb.level_eq h hs hlen hhi hq0 hq1 (q := 0) (by omega) (by omega)]
    have h0 := hrange 0 (by omega)
    obtain ⟨p, hp, hlevel⟩ := hused (top - 1) (by omega) (by omega)
    have := hmono 0 p (Nat.zero_le p) hp
    push_cast
    omega
  | succ k ih =>
    intro lo hi hk hb hhi q hq0 hq1
    obtain ⟨lo', hi', hb', hle', hhi'⟩ := h.batch (k := k) (by omega)
    obtain rfl : hi' = lo := by
      have h1 := hb'.hi
      have h2 := hb.lo
      rw [h1, Option.some.injEq] at h2
      omega
    have hlt : lo' < hi' := by
      have h1 := hb'.lo
      have h2 := hb'.hi
      rw [List.getElem?_append_left (by omega)] at h1
      rw [List.getElem?_append_left (by omega)] at h2
      have := lt_of_getElem?_of_lt h.sorted h1 h2 (Nat.lt_succ_self k)
      omega
    have hprev := ih lo' hi' (by omega) hb' hhi' (hi' - 1) (by omega) (by omega)
    rw [hb.level_eq h hs hlen hhi hq0 hq1 (q := hi') (le_refl _) (by omega)]
    -- the level falls at the change index, to the next one that is used
    have hfall : levelAt levels order hi' < levelAt levels order (hi' - 1) := by
      rw [h.between (hi' - 1) hi' (by omega) (by omega)]
      have hmem := hb.lo
      rw [List.getElem?_append_left hk] at hmem
      exact ⟨hi', List.mem_of_getElem? hmem, by omega, le_refl _⟩
    have h0 := hrange hi' (by omega)
    obtain ⟨p, hp, hlevel⟩ := hused (top - 1 - k - 1) (by omega) (by omega)
    have hpos : hi' ≤ p := by
      by_contra hno
      have := hmono p (hi' - 1) (by omega) (by omega)
      omega
    have := hmono hi' p hpos hp
    push_cast
    omega

theorem Changes.length_pos {i : Nat} {cs : List Int} (h : Changes levels order i cs) :
    0 < cs.length := by
  apply List.length_pos_iff.mpr
  intro hnil
  have := h.head
  rw [hnil] at this
  simp at this

section used

variable {cs : List Int} {top : Int} (hc : Changes levels order n cs)
  (hs : SortedFrom levels order 0) (hlen : order.length = n)
  (hrange : ∀ p, p < n → 0 ≤ levelAt levels order p ∧ levelAt levels order p < top)
  (hused : ∀ l, 0 ≤ l → l < top → ∃ p, p < n ∧ levelAt levels order p = l)

include hc hs hlen hrange hused

/-- There are as many change indices as levels: the last batch has the level 0. -/
theorem Changes.top_eq (hn : 0 < n) : top = cs.length := by
  have hcs0 := hc.length_pos
  obtain ⟨lo, hi, hb, hle, hhi⟩ := hc.batch (k := cs.length - 1) (by omega)
  have hhi' : hi = n := by
    have := hb.hi
    rw [show cs.length - 1 + 1 = cs.length by omega,
      List.getElem?_append_right (le_refl _), Nat.sub_self] at this
    simp only [List.getElem?_cons_zero, Option.some.injEq] at this
    omega
  have hlo : lo < n := by
    have := hb.lo
    rw [List.getElem?_append_left (by omega)] at this
    have := hc.range _ (List.mem_of_getElem? this)
    omega
  have h1 := Batch.levelAt_eq hc hs hlen hrange hused (cs.length - 1) lo hi (by omega) hb hhi
    (n - 1) (by omega) (by omega)
  have h2 := hrange (n - 1) (by omega)
  obtain ⟨q, hq, hq0⟩ := hused 0 (le_refl 0) (by omega)
  have h3 : levelAt levels order (n - 1) ≤ levelAt levels order q := by
    rcases Nat.lt_or_eq_of_le (Nat.le_sub_one_of_lt hq) with hlt | heq
    · exact hs q (n - 1) hlt (Nat.zero_le _) (by omega)
    · rw [heq]
  omega

/-- The change index that leaves out `K` levels parts the nodes by their level. -/
theorem Changes.lt_cut_iff {K m : Nat}
    (hm : (cs ++ [(n : Int)])[cs.length - K]? = some (m : Int)) (p : Nat) (hp : p < n) :
    p < m ↔ (K : Int) ≤ levelAt levels order p := by
  have hcs0 := hc.length_pos
  have htop := Changes.top_eq hc hs hlen hrange hused (by omega)
  have hend : K = 0 → m = n := by
    intro hK0
    rw [hK0, Nat.sub_zero, List.getElem?_append_right (le_refl _), Nat.sub_self] at hm
    simp only [List.getElem?_cons_zero, Option.some.injEq] at hm
    omega
  by_cases hK : cs.length ≤ K
  · obtain rfl : m = 0 := by
      rw [show cs.length - K = 0 by omega, List.getElem?_append_left hcs0,
        ← List.head?_eq_getElem?, hc.head, Option.some.injEq] at hm
      omega
    have := hrange p hp
    omega
  · obtain ⟨lo, hi, hb, hle, hhi⟩ := hc.batch (k := cs.length - K - 1) (by omega)
    obtain rfl : hi = m := by
      have := hb.hi
      rw [show cs.length - K - 1 + 1 = cs.length - K by omega, hm, Option.some.injEq] at this
      omega
    have hlt : lo < hi := by
      have h1 := hb.lo
      rw [List.getElem?_append_left (by omega)] at h1
      by_cases hK0 : K = 0
      · have := hend hK0
        have := hc.range _ (List.mem_of_getElem? h1)
        omega
      · rw [List.getElem?_append_left (by omega)] at hm
        have := lt_of_getElem?_of_lt hc.sorted h1 hm (by omega)
        omega
    -- the batch before the cut has the level `K`
    have hlast := Batch.levelAt_eq hc hs hlen hrange hused (cs.length - K - 1) lo hi (by omega) hb
      hhi (hi - 1) (by omega) (by omega)
    have hlast' : levelAt levels order (hi - 1) = K := by omega
    constructor
    · intro hpm
      rcases Nat.lt_or_eq_of_le (Nat.le_sub_one_of_lt hpm) with hlt' | heq
      · have := hs p (hi - 1) hlt' (Nat.zero_le _) (by omega)
        omega
      · rw [heq, hlast']
    · intro hKp
      by_contra hpm
      by_cases hK0 : K = 0
      · have := hend hK0
        omega
      · have hmem : (hi : Int) ∈ cs := by
          rw [List.getElem?_append_left (by omega)] at hm
          exact List.mem_of_getElem? hm
        have := (hc.between (hi - 1) p (by omega) hp).mpr ⟨hi, hmem, by omega, by omega⟩
        omega

end used

end LabelCreator

end SeaRouter
