import SeaRouter.Lib.SortedArray

/-!
# `utils/OrderedIntSet.java`

A list of ints in an array that grows.  The sorted variant keeps `MAX_VALUE` in
the free part of the array, so that it can be searched.  Most callers use
several of these lists as the columns of one table: a sorted one holds the keys
and the others, at the same indices, the data.

`Holds s xs` says that the list has the elements `xs`; whether they are sorted
is up to the caller.
-/

namespace SeaRouter

open Java

/-- The fields of `OrderedIntSet`. -/
structure OrderedIntSet where
  orderedBySorting : Bool
  elements : List Int
  elementCount : Int
  sizeIncrease : Int
deriving DecidableEq, Repr

namespace OrderedIntSet

/-- What the free part of the array is filled with. -/
def filler (orderedBySorting : Bool) : Int := if orderedBySorting then MAX_VALUE else 0

/-- `OrderedIntSet(orderedBySorting, initialSize, sizeIncrease)`. -/
def new (orderedBySorting : Bool) (initialSize sizeIncrease : Nat) : OrderedIntSet where
  orderedBySorting := orderedBySorting
  elements := List.replicate initialSize (filler orderedBySorting)
  elementCount := 0
  sizeIncrease := sizeIncrease

def grow (s : OrderedIntSet) : OrderedIntSet :=
  { s with elements := growBy s.elements s.sizeIncrease (filler s.orderedBySorting) }

/-- `grow()` if the array is full. -/
def growIfFull (s : OrderedIntSet) : OrderedIntSet :=
  if s.elementCount = s.elements.length then grow s else s

def insertTail (s : OrderedIntSet) (toAdd : Int) : Run OrderedIntSet := do
  let s := growIfFull s
  let elements ← wr s.elements s.elementCount toAdd
  return { s with elements := elements, elementCount := s.elementCount + 1 }

def removeAtIdx (s : OrderedIntSet) (idx : Int) : Run OrderedIntSet := do
  let elementCount := s.elementCount - 1
  let elements ← shiftRemove s.elements idx elementCount
  -- just in case the set is ordered
  let elements ← wr elements elementCount MAX_VALUE
  return { s with elements := elements, elementCount := elementCount }

def insertAtIdx (s : OrderedIntSet) (toAdd idx : Int) : Run OrderedIntSet := do
  let s := growIfFull s
  let elements ← shiftInsert s.elements idx s.elementCount toAdd
  return { s with elements := elements, elementCount := s.elementCount + 1 }

/-- `insertSorted(toAdd)`: the index of the new element or -1. -/
def insertSorted (s : OrderedIntSet) (toAdd : Int) : Run (Int × OrderedIntSet) := do
  let s := growIfFull s
  let idx ← binarySearch s.elements toAdd
  if 0 ≤ idx then return (-1, s)
  else
    let idx := (idx + 1) * (-1)
    let elements ← shiftInsert s.elements idx s.elementCount toAdd
    return (idx, { s with elements := elements, elementCount := s.elementCount + 1 })

def get (s : OrderedIntSet) (idx : Int) : Run Int :=
  if s.elementCount ≤ idx then throw .indexOutOfBounds else rd s.elements idx

def size (s : OrderedIntSet) : Int := s.elementCount

def getIdx (s : OrderedIntSet) (element : Int) : Run Int := binarySearch s.elements element

def updateValue (s : OrderedIntSet) (newVal idx : Int) : Run OrderedIntSet := do
  let elements ← wr s.elements idx newVal
  return { s with elements := elements }

def makeSpace (s : OrderedIntSet) (numOfElements : Int) : OrderedIntSet :=
  if (s.elements.length : Int) - s.elementCount < numOfElements then
    { s with elements := growBy s.elements numOfElements (filler s.orderedBySorting) }
  else s

def clear (s : OrderedIntSet) : OrderedIntSet :=
  { s with
    elementCount := 0
    elements := if s.orderedBySorting then List.replicate s.elements.length MAX_VALUE
      else s.elements }

def toArray (s : OrderedIntSet) : Run (List Int) := slice s.elements 0 s.elementCount

/-! ## The elements of the list -/

/-- The list has the elements `xs`. -/
structure Holds (s : OrderedIntSet) (xs : List Int) : Prop where
  count : s.elementCount = xs.length
  increase : 0 < s.sizeIncrease
  array : ∃ rest, s.elements = xs ++ rest ∧
    (s.orderedBySorting = true → ∀ x ∈ rest, x = MAX_VALUE)

variable {s : OrderedIntSet} {xs : List Int}

theorem new_holds (ordered : Bool) (size : Nat) {sizeIncrease : Nat} (h : 0 < sizeIncrease) :
    Holds (new ordered size sizeIncrease) [] := by
  refine ⟨rfl, by simp only [new]; omega, _, rfl, ?_⟩
  intro hord x hx
  have hord : ordered = true := hord
  rw [List.eq_of_mem_replicate hx, filler, if_pos hord]

/-- Whatever a list held before, it is empty after `clear`. -/
theorem clear_holds (h : 0 < s.sizeIncrease) : Holds (clear s) [] := by
  refine ⟨rfl, h, (clear s).elements, rfl, ?_⟩
  intro hord x hx
  have hord : s.orderedBySorting = true := hord
  simp only [clear, hord, if_true] at hx
  exact List.eq_of_mem_replicate hx

theorem size_eq (h : Holds s xs) : size s = xs.length := h.count

/-- After `growIfFull` there is room behind the elements. -/
theorem growIfFull_holds (h : Holds s xs) :
    ∃ y rest, (growIfFull s).elements = xs ++ y :: rest ∧
      (growIfFull s).elementCount = xs.length ∧ 0 < (growIfFull s).sizeIncrease ∧
      (growIfFull s).orderedBySorting = s.orderedBySorting ∧
      (s.orderedBySorting = true → y = MAX_VALUE ∧ ∀ x ∈ rest, x = MAX_VALUE) := by
  obtain ⟨rest, helem, hrest⟩ := h.array
  have hinc := h.increase
  have hcount := h.count
  unfold growIfFull
  split_ifs with hfull
  · have hnil : rest = [] := by
      rw [helem, List.length_append] at hfull
      exact List.eq_nil_of_length_eq_zero (by omega)
    obtain ⟨k, hk⟩ : ∃ k : Nat, s.sizeIncrease.toNat = k + 1 :=
      ⟨s.sizeIncrease.toNat - 1, by omega⟩
    refine ⟨filler s.orderedBySorting, List.replicate k (filler s.orderedBySorting), ?_, hcount,
      hinc, rfl, ?_⟩
    · simp [grow, growBy, helem, hnil, hk, List.replicate_succ]
    · intro hord
      rw [hord]
      exact ⟨rfl, fun x hx => List.eq_of_mem_replicate hx⟩
  · cases rest with
    | nil =>
      rw [helem, List.append_nil] at hfull
      omega
    | cons y rest =>
      refine ⟨y, rest, helem, hcount, hinc, rfl, ?_⟩
      intro hord
      exact ⟨hrest hord y List.mem_cons_self, fun x hx => hrest hord x (List.mem_cons_of_mem y hx)⟩

theorem insertAtIdx_spec (h : Holds s xs) {n : Nat} (hn : n ≤ xs.length) (x : Int) :
    ∃ s', insertAtIdx s x n = .ok s' ∧ s'.orderedBySorting = s.orderedBySorting ∧
      Holds s' (xs.insertIdx n x) := by
  obtain ⟨y, rest, helem, hcount, hinc, hord, hrest⟩ := growIfFull_holds h
  refine ⟨{ growIfFull s with
      elements := xs.insertIdx n x ++ rest
      elementCount := (growIfFull s).elementCount + 1 }, ?_, hord, ?_, hinc, rest, rfl, ?_⟩
  · unfold insertAtIdx
    simp only [helem, hcount, shiftInsert_eq _ _ _ hn, ok_bind]
    rfl
  · simp only [hcount]
    rw [List.length_insertIdx_of_le_length hn]
    push_cast
    rfl
  · intro ho
    exact (hrest (hord ▸ ho)).2

theorem insertTail_spec (h : Holds s xs) (x : Int) :
    ∃ s', insertTail s x = .ok s' ∧ s'.orderedBySorting = s.orderedBySorting ∧
      Holds s' (xs ++ [x]) := by
  obtain ⟨y, rest, helem, hcount, hinc, hord, hrest⟩ := growIfFull_holds h
  refine ⟨{ growIfFull s with
      elements := (xs ++ [x]) ++ rest
      elementCount := (growIfFull s).elementCount + 1 }, ?_, hord, ?_, hinc, rest, rfl, ?_⟩
  · unfold insertTail
    simp only [helem, hcount]
    rw [wr_of_bounds _ (by omega) (by simp), ok_bind]
    simp
  · simp [hcount]
  · intro ho
    exact (hrest (hord ▸ ho)).2

theorem removeAtIdx_spec (h : Holds s xs) {n : Nat} (hn : n < xs.length) :
    ∃ s', removeAtIdx s n = .ok s' ∧ s'.orderedBySorting = s.orderedBySorting ∧
      Holds s' (xs.eraseIdx n) := by
  obtain ⟨rest, helem, hrest⟩ := h.array
  have hcount := h.count
  obtain ⟨y, hshift⟩ := shiftRemove_eq xs rest hn
  have hlen : (xs.eraseIdx n).length = xs.length - 1 := List.length_eraseIdx_of_lt hn
  have hwr : wr (xs.eraseIdx n ++ y :: rest) ((xs.length : Int) - 1) MAX_VALUE
      = .ok (xs.eraseIdx n ++ MAX_VALUE :: rest) := by
    have hidx : ((xs.length : Int) - 1).toNat = (xs.eraseIdx n).length := by omega
    rw [wr_of_bounds _ (by omega) (by simp [hlen]; omega), hidx, List.set_append_right _ _ (le_refl _)]
    simp
  refine ⟨{ s with
      elements := xs.eraseIdx n ++ MAX_VALUE :: rest
      elementCount := s.elementCount - 1 }, ?_, rfl, ?_, h.increase, _, rfl, ?_⟩
  · unfold removeAtIdx
    simp only [hcount, helem, hshift, ok_bind, hwr]
    rfl
  · simp only [hcount]
    omega
  · intro ho x hx
    rcases List.mem_cons.mp hx with rfl | hx
    · rfl
    · exact hrest ho x hx

theorem updateValue_spec (h : Holds s xs) {n : Nat} (hn : n < xs.length) (x : Int) :
    ∃ s', updateValue s x n = .ok s' ∧ s'.orderedBySorting = s.orderedBySorting ∧
      Holds s' (xs.set n x) := by
  obtain ⟨rest, helem, hrest⟩ := h.array
  refine ⟨{ s with elements := xs.set n x ++ rest }, ?_, rfl, ?_, h.increase, rest, rfl, hrest⟩
  · unfold updateValue
    rw [helem, wr_of_bounds _ (by omega) (by simp; omega), Int.toNat_natCast,
      List.set_append_left _ _ hn, ok_bind]
    rfl
  · simp only [List.length_set]
    exact h.count

theorem makeSpace_holds (h : Holds s xs) (k : Int) :
    (makeSpace s k).orderedBySorting = s.orderedBySorting ∧ Holds (makeSpace s k) xs := by
  obtain ⟨rest, helem, hrest⟩ := h.array
  unfold makeSpace
  split_ifs
  · refine ⟨rfl, h.count, h.increase,
      rest ++ List.replicate k.toNat (filler s.orderedBySorting), by simp [growBy, helem], ?_⟩
    intro ho x hx
    rcases List.mem_append.mp hx with hx | hx
    · exact hrest ho x hx
    · have ho : s.orderedBySorting = true := ho
      rw [List.eq_of_mem_replicate hx, filler, if_pos ho]
  · exact ⟨rfl, h⟩

theorem get_spec (h : Holds s xs) {n : Nat} {x : Int} (hx : xs[n]? = some x) :
    get s n = .ok x := by
  obtain ⟨rest, helem, _⟩ := h.array
  have hlt := (List.getElem?_eq_some_iff.mp hx).1
  have hcount := h.count
  rw [get, if_neg (by omega), helem, rd_append_left (by omega)]
  exact rd_of_getElem? hx

theorem toArray_spec (h : Holds s xs) : toArray s = .ok xs := by
  obtain ⟨rest, helem, _⟩ := h.array
  rw [toArray, helem, h.count]
  exact slice_append

/-- The search in a sorted list; behind the searched elements there may be more
that are `MAX_VALUE`. -/
theorem getIdx_spec (hord : s.orderedBySorting = true) {l : List Int} (h : Holds s (xs ++ l))
    (hl : ∀ y ∈ l, y = MAX_VALUE) (hs : xs.Pairwise (· < ·)) (hsmall : ∀ x ∈ xs, x < MAX_VALUE)
    {key : Int} (hkey : key < MAX_VALUE) : getIdx s key = .ok (encodeRank xs key) := by
  obtain ⟨rest, helem, hrest⟩ := h.array
  have hpad : Padded s.elements xs (l ++ rest).length := by
    refine ⟨?_, hs, hsmall⟩
    rw [helem, List.append_assoc]
    congr 1
    apply List.eq_replicate_of_mem
    intro x hx
    rcases List.mem_append.mp hx with hx | hx
    · exact hl x hx
    · exact hrest hord x hx
  exact binarySearch_padded hpad hkey

/-- A sorted list of values below `MAX_VALUE`. -/
structure Sorted (s : OrderedIntSet) (xs : List Int) : Prop where
  ordered : s.orderedBySorting = true
  holds : Holds s xs
  sorted : xs.Pairwise (· < ·)
  small : ∀ x ∈ xs, x < MAX_VALUE

theorem Sorted.getIdx (h : Sorted s xs) {x : Int} (hx : x < MAX_VALUE) :
    getIdx s x = .ok (encodeRank xs x) :=
  getIdx_spec h.ordered (l := []) (by rw [List.append_nil]; exact h.holds) (by simp) h.sorted
    h.small hx

theorem Sorted.growIfFull (h : Sorted s xs) : Sorted (growIfFull s) xs := by
  obtain ⟨y, rest, helem, hcount, hinc, hord, hrest⟩ := growIfFull_holds h.holds
  refine ⟨hord.trans h.ordered, ⟨hcount, hinc, y :: rest, helem, ?_⟩, h.sorted, h.small⟩
  intro _ x hx
  obtain ⟨hy, hrest⟩ := hrest h.ordered
  rcases List.mem_cons.mp hx with rfl | hx
  · exact hy
  · exact hrest x hx

/-- An absent element is inserted where it belongs. -/
theorem Sorted.insertAtIdx (h : Sorted s xs) {x : Int} (hx : x < MAX_VALUE) (hnot : x ∉ xs) :
    ∃ s', insertAtIdx s x (rank xs x) = .ok s' ∧ Sorted s' (xs.insertIdx (rank xs x) x) := by
  obtain ⟨s', hrun, hord, hs'⟩ := insertAtIdx_spec h.holds (rank_le_length xs x) x
  refine ⟨s', hrun, hord.trans h.ordered, hs', pairwise_insertIdx_rank h.sorted hnot, ?_⟩
  intro y hy
  rcases mem_insertIdx_rank.mp hy with rfl | hy
  · exact hx
  · exact h.small y hy

theorem Sorted.insertSorted_absent (h : Sorted s xs) {x : Int} (hx : x < MAX_VALUE)
    (hnot : x ∉ xs) : ∃ s', insertSorted s x = .ok ((rank xs x : Int), s') ∧
      Sorted s' (xs.insertIdx (rank xs x) x) := by
  have hidx : (encodeRank xs x + 1) * (-1) = (rank xs x : Int) := by
    rw [encodeRank, if_neg hnot]
    ring
  have hneg : ¬ 0 ≤ encodeRank xs x := by
    rw [encodeRank, if_neg hnot]
    omega
  have hsearch : binarySearch s.growIfFull.elements x = .ok (encodeRank xs x) :=
    h.growIfFull.getIdx hx
  obtain ⟨s', hrun, hs'⟩ := h.insertAtIdx hx hnot
  refine ⟨s', ?_, hs'⟩
  rw [OrderedIntSet.insertAtIdx, bind_eq_ok] at hrun
  obtain ⟨elements, helements, hrun⟩ := hrun
  simp only [insertSorted, hsearch, ok_bind, if_neg hneg, hidx, helements]
  rw [pure_eq_ok, Except.ok.injEq] at hrun
  rw [pure_eq_ok, hrun]

theorem Sorted.insertSorted_present (h : Sorted s xs) {x : Int} (hx : x ∈ xs) :
    insertSorted s x = .ok (-1, s.growIfFull) := by
  have hsearch : binarySearch s.growIfFull.elements x = .ok (encodeRank xs x) :=
    h.growIfFull.getIdx (h.small x hx)
  have hpos : 0 ≤ encodeRank xs x := by
    rw [encodeRank, if_pos hx]
    omega
  simp only [insertSorted, hsearch, ok_bind, if_pos hpos, pure_eq_ok]

theorem Sorted.removeAtIdx (h : Sorted s xs) {n : Nat} (hn : n < xs.length) :
    ∃ s', removeAtIdx s n = .ok s' ∧ Sorted s' (xs.eraseIdx n) := by
  obtain ⟨s', hrun, hord, hs'⟩ := removeAtIdx_spec h.holds hn
  exact ⟨s', hrun, hord.trans h.ordered, hs', pairwise_eraseIdx h.sorted n,
    fun x hx => h.small x (List.mem_of_mem_eraseIdx hx)⟩

/-! ## Columns that are changed together -/

section columns

variable {ι : Type}

/-- A sorted list and others that were changed at the same indices, with the values
that were last given to the elements; `V i x` is the value of `x` in the list `i`. -/
inductive Reached [DecidableEq ι] (size sizeIncrease : Nat) (sizes sizeIncreases : ι → Nat) :
    OrderedIntSet → (ι → OrderedIntSet) → (ι → Int → Option Int) → Prop
  | start : Reached size sizeIncrease sizes sizeIncreases (new true size sizeIncrease)
      (fun i => new false (sizes i) (sizeIncreases i)) (fun _ _ => none)
  | clear {keys : OrderedIntSet} {cols : ι → OrderedIntSet} {V : ι → Int → Option Int} :
      Reached size sizeIncrease sizes sizeIncreases keys cols V →
      Reached size sizeIncrease sizes sizeIncreases keys.clear (fun i => (cols i).clear)
        (fun _ _ => none)
  | makeSpace {keys : OrderedIntSet} {cols : ι → OrderedIntSet} {V : ι → Int → Option Int}
      (numOfElements : Int) (numsOfElements : ι → Int) :
      Reached size sizeIncrease sizes sizeIncreases keys cols V →
      Reached size sizeIncrease sizes sizeIncreases (keys.makeSpace numOfElements)
        (fun i => (cols i).makeSpace (numsOfElements i)) V
  | insertSorted {keys keys' : OrderedIntSet} {cols cols' : ι → OrderedIntSet}
      {V : ι → Int → Option Int} {x idx : Int} {vs : ι → Int} :
      Reached size sizeIncrease sizes sizeIncreases keys cols V → x < MAX_VALUE →
      keys.insertSorted x = .ok (idx, keys') → idx ≠ -1 →
      (∀ i, (cols i).insertAtIdx (vs i) idx = .ok (cols' i)) →
      Reached size sizeIncrease sizes sizeIncreases keys' cols'
        (fun i y => if y = x then some (vs i) else V i y)
  | insertSorted_present {keys keys' : OrderedIntSet} {cols : ι → OrderedIntSet}
      {V : ι → Int → Option Int} {x : Int} :
      Reached size sizeIncrease sizes sizeIncreases keys cols V → x < MAX_VALUE →
      keys.insertSorted x = .ok (-1, keys') →
      Reached size sizeIncrease sizes sizeIncreases keys' cols V
  | insertAtIdx {keys keys' : OrderedIntSet} {cols cols' : ι → OrderedIntSet}
      {V : ι → Int → Option Int} {x idx : Int} {vs : ι → Int} :
      Reached size sizeIncrease sizes sizeIncreases keys cols V → x < MAX_VALUE →
      keys.getIdx x = .ok idx → idx < 0 →
      keys.insertAtIdx x ((idx + 1) * (-1)) = .ok keys' →
      (∀ i, (cols i).insertAtIdx (vs i) ((idx + 1) * (-1)) = .ok (cols' i)) →
      Reached size sizeIncrease sizes sizeIncreases keys' cols'
        (fun i y => if y = x then some (vs i) else V i y)
  | removeAtIdx {keys keys' : OrderedIntSet} {cols cols' : ι → OrderedIntSet}
      {V : ι → Int → Option Int} {x idx : Int} :
      Reached size sizeIncrease sizes sizeIncreases keys cols V → keys.get idx = .ok x →
      keys.removeAtIdx idx = .ok keys' → (∀ i, (cols i).removeAtIdx idx = .ok (cols' i)) →
      Reached size sizeIncrease sizes sizeIncreases keys' cols'
        (fun i y => if y = x then none else V i y)
  | updateValue {keys : OrderedIntSet} {cols : ι → OrderedIntSet} {V : ι → Int → Option Int}
      {x v idx : Int} {i : ι} {col : OrderedIntSet} :
      Reached size sizeIncrease sizes sizeIncreases keys cols V → keys.get idx = .ok x →
      (cols i).updateValue v idx = .ok col →
      Reached size sizeIncrease sizes sizeIncreases keys (Function.update cols i col)
        (Function.update V i fun y => if y = x then some v else V i y)

/-- The elements `xs` and the values of the columns. -/
structure Columns (keys : OrderedIntSet) (cols : ι → OrderedIntSet) (V : ι → Int → Option Int)
    (xs : List Int) (ys : ι → List Int) : Prop where
  keys : Sorted keys xs
  cols : ∀ i, Holds (cols i) (ys i)
  length : ∀ i, (ys i).length = xs.length
  value : ∀ i y, V i y = assoc xs (ys i) y

variable {keys keys' : OrderedIntSet} {cols cols' : ι → OrderedIntSet} {V : ι → Int → Option Int}
  {ys : ι → List Int}

/-- An element that `get` returns. -/
theorem Holds.of_get (h : Holds s xs) {idx x : Int} (hget : get s idx = .ok x) :
    ∃ n : Nat, idx = n ∧ xs[n]? = some x := by
  rw [get] at hget
  split_ifs at hget with hlt
  obtain ⟨rest, helem, _⟩ := h.array
  have hb := rd_bounds hget
  have hcount := h.count
  obtain ⟨n, rfl⟩ : ∃ n : Nat, idx = n := ⟨idx.toNat, by omega⟩
  rw [helem, rd_append_left (by omega)] at hget
  exact ⟨n, rfl, getElem?_of_rd hget⟩

theorem Columns.insert (h : Columns keys cols V xs ys) {x : Int} (hnot : x ∉ xs)
    (hkeys : Sorted keys' (xs.insertIdx (rank xs x) x)) {vs : ι → Int}
    (hcols : ∀ i, (cols i).insertAtIdx (vs i) (rank xs x) = .ok (cols' i)) :
    Columns keys' cols' (fun i y => if y = x then some (vs i) else V i y)
      (xs.insertIdx (rank xs x) x) (fun i => (ys i).insertIdx (rank xs x) (vs i)) := by
  have hle : ∀ i, rank xs x ≤ (ys i).length := by
    intro i
    rw [h.length i]
    exact rank_le_length xs x
  refine ⟨hkeys, ?_, ?_, ?_⟩
  · intro i
    obtain ⟨s', hrun, _, hs'⟩ := insertAtIdx_spec (h.cols i) (hle i) (vs i)
    rw [hcols i, Except.ok.injEq] at hrun
    rw [hrun]
    exact hs'
  · intro i
    rw [List.length_insertIdx_of_le_length (hle i),
      List.length_insertIdx_of_le_length (rank_le_length xs x), h.length i]
  · intro i y
    rw [assoc_insertIdx_rank (h.length i) hnot, h.value i y]

theorem Columns.remove (h : Columns keys cols V xs ys) {n : Nat} {x : Int} (hn : xs[n]? = some x)
    (hkeys : keys.removeAtIdx n = .ok keys') (hcols : ∀ i, (cols i).removeAtIdx n = .ok (cols' i)) :
    Columns keys' cols' (fun i y => if y = x then none else V i y) (xs.eraseIdx n)
      (fun i => (ys i).eraseIdx n) := by
  have hlt := (List.getElem?_eq_some_iff.mp hn).1
  have hlt' : ∀ i, n < (ys i).length := by
    intro i
    rw [h.length i]
    exact hlt
  obtain ⟨k', hk', hsorted⟩ := h.keys.removeAtIdx hlt
  rw [hkeys, Except.ok.injEq] at hk'
  refine ⟨hk' ▸ hsorted, ?_, ?_, ?_⟩
  · intro i
    obtain ⟨s', hrun, _, hs'⟩ := removeAtIdx_spec (h.cols i) (hlt' i)
    rw [hcols i, Except.ok.injEq] at hrun
    rw [hrun]
    exact hs'
  · intro i
    rw [List.length_eraseIdx_of_lt (hlt' i), List.length_eraseIdx_of_lt hlt, h.length i]
  · intro i y
    rw [assoc_eraseIdx (h.length i) (nodup_of_sorted h.keys.sorted) hn, h.value i y]

theorem Columns.update [DecidableEq ι] (h : Columns keys cols V xs ys) {n : Nat} {x v : Int}
    (hn : xs[n]? = some x) {i : ι} {col : OrderedIntSet}
    (hcol : (cols i).updateValue v n = .ok col) :
    Columns keys (Function.update cols i col)
      (Function.update V i fun y => if y = x then some v else V i y) xs
      (Function.update ys i ((ys i).set n v)) := by
  have hlt : n < (ys i).length := by
    rw [h.length i]
    exact (List.getElem?_eq_some_iff.mp hn).1
  obtain ⟨s', hrun, _, hs'⟩ := updateValue_spec (h.cols i) hlt v
  rw [hcol, Except.ok.injEq] at hrun
  refine ⟨h.keys, ?_, ?_, ?_⟩
  · intro j
    by_cases hj : j = i
    · subst hj
      rw [Function.update_self, Function.update_self, hrun]
      exact hs'
    · rw [Function.update_of_ne hj, Function.update_of_ne hj]
      exact h.cols j
  · intro j
    by_cases hj : j = i
    · subst hj
      rw [Function.update_self, List.length_set, h.length j]
    · rw [Function.update_of_ne hj, h.length j]
  · intro j y
    by_cases hj : j = i
    · subst hj
      rw [Function.update_self, Function.update_self,
        assoc_set (h.length j) (nodup_of_sorted h.keys.sorted) hn, h.value j y]
    · rw [Function.update_of_ne hj, Function.update_of_ne hj, h.value j y]

/-- In every run there are such elements and values. -/
theorem Reached.columns [DecidableEq ι] {size sizeIncrease : Nat} {sizes sizeIncreases : ι → Nat}
    (h : Reached size sizeIncrease sizes sizeIncreases keys cols V) (hinc : 0 < sizeIncrease)
    (hincs : ∀ i, 0 < sizeIncreases i) : ∃ xs ys, Columns keys cols V xs ys := by
  induction h with
  | start =>
    exact ⟨[], fun _ => [], ⟨rfl, new_holds true size hinc, List.Pairwise.nil, by simp⟩,
      fun i => new_holds false (sizes i) (hincs i), fun _ => rfl, fun _ _ => rfl⟩
  | clear _ ih =>
    obtain ⟨xs, ys, hc⟩ := ih
    exact ⟨[], fun _ => [], ⟨hc.keys.ordered, clear_holds hc.keys.holds.increase,
      List.Pairwise.nil, by simp⟩,
      fun i => clear_holds (hc.cols i).increase, fun _ => rfl, fun _ _ => rfl⟩
  | makeSpace k ks _ ih =>
    obtain ⟨xs, ys, hc⟩ := ih
    obtain ⟨hord, hholds⟩ := makeSpace_holds hc.keys.holds k
    exact ⟨xs, ys, ⟨hord.trans hc.keys.ordered, hholds, hc.keys.sorted, hc.keys.small⟩,
      fun i => (makeSpace_holds (hc.cols i) (ks i)).2, hc.length, hc.value⟩
  | @insertSorted _ _ _ _ _ x _ _ _ hx hrun hidx hcols ih =>
    obtain ⟨xs, ys, hc⟩ := ih
    by_cases hmem : x ∈ xs
    · rw [hc.keys.insertSorted_present hmem, Except.ok.injEq, Prod.mk.injEq] at hrun
      exact absurd hrun.1.symm hidx
    · obtain ⟨k', hrun', hsorted⟩ := hc.keys.insertSorted_absent hx hmem
      rw [hrun, Except.ok.injEq, Prod.mk.injEq] at hrun'
      obtain ⟨rfl, rfl⟩ := hrun'
      exact ⟨_, _, hc.insert hmem hsorted hcols⟩
  | @insertSorted_present _ _ _ _ x _ hx hrun ih =>
    obtain ⟨xs, ys, hc⟩ := ih
    by_cases hmem : x ∈ xs
    · rw [hc.keys.insertSorted_present hmem, Except.ok.injEq, Prod.mk.injEq] at hrun
      exact ⟨xs, ys, hrun.2 ▸ hc.keys.growIfFull, hc.cols, hc.length, hc.value⟩
    · obtain ⟨k', hrun', _⟩ := hc.keys.insertSorted_absent hx hmem
      rw [hrun, Except.ok.injEq, Prod.mk.injEq] at hrun'
      omega
  | @insertAtIdx _ _ _ _ _ x _ _ _ hx hidx hneg hkeys hcols ih =>
    obtain ⟨xs, ys, hc⟩ := ih
    rw [hc.keys.getIdx hx, Except.ok.injEq] at hidx
    subst hidx
    have hmem : x ∉ xs := by
      intro hmem
      rw [encodeRank, if_pos hmem] at hneg
      omega
    have henc : (encodeRank xs x + 1) * (-1) = (rank xs x : Int) := by
      rw [encodeRank, if_neg hmem]
      ring
    rw [henc] at hkeys hcols
    obtain ⟨k', hrun', hsorted⟩ := hc.keys.insertAtIdx hx hmem
    rw [hkeys, Except.ok.injEq] at hrun'
    exact ⟨_, _, hc.insert hmem (hrun' ▸ hsorted) hcols⟩
  | removeAtIdx _ hget hkeys hcols ih =>
    obtain ⟨xs, ys, hc⟩ := ih
    obtain ⟨n, rfl, hn⟩ := hc.keys.holds.of_get hget
    exact ⟨_, _, hc.remove hn hkeys hcols⟩
  | updateValue _ hget hcol ih =>
    obtain ⟨xs, ys, hc⟩ := ih
    obtain ⟨n, rfl, hn⟩ := hc.keys.holds.of_get hget
    exact ⟨_, _, hc.update hn hcol⟩

/-- What a caller sees of the lists. -/
structure InLockstep (keys : OrderedIntSet) (cols : ι → OrderedIntSet) (V : ι → Int → Option Int)
    (xs : List Int) : Prop where
  array : ∃ free, keys.elements = xs ++ List.replicate free MAX_VALUE
  size : keys.size = xs.length
  sorted : xs.Pairwise (· < ·)
  small : ∀ x ∈ xs, x < MAX_VALUE
  getIdx_present : ∀ (n : Nat) x, xs[n]? = some x → keys.getIdx x = .ok (n : Int)
  getIdx_absent : ∀ x, x < MAX_VALUE → x ∉ xs → ∃ n : Nat, n ≤ xs.length ∧
    keys.getIdx x = .ok (-(n : Int) - 1) ∧ (∀ y ∈ xs.take n, y < x) ∧ ∀ y ∈ xs.drop n, x < y
  column : ∀ i, (cols i).size = xs.length ∧ (∀ (n : Nat) x, xs[n]? = some x →
    ∃ v, (cols i).get n = .ok v ∧ V i x = some v) ∧ ∀ x, x ∉ xs → V i x = none
  insertSorted : ∀ x, x < MAX_VALUE → ∀ vs : ι → Int, ∃ idx keys',
    keys.insertSorted x = .ok (idx, keys') ∧ (idx = -1 ↔ x ∈ xs) ∧
    (idx ≠ -1 → ∀ i, ∃ col, (cols i).insertAtIdx (vs i) idx = .ok col)
  insertAtIdx : ∀ x, x < MAX_VALUE → x ∉ xs → ∀ vs : ι → Int, ∃ idx keys',
    keys.getIdx x = .ok idx ∧ keys.insertAtIdx x ((idx + 1) * (-1)) = .ok keys' ∧
    ∀ i, ∃ col, (cols i).insertAtIdx (vs i) ((idx + 1) * (-1)) = .ok col
  removeAtIdx : ∀ n : Nat, n < xs.length → (∃ keys', keys.removeAtIdx n = .ok keys') ∧
    ∀ i, ∃ col, (cols i).removeAtIdx n = .ok col
  updateValue : ∀ n : Nat, n < xs.length → ∀ i v, ∃ col, (cols i).updateValue v n = .ok col

theorem Sorted.encodeRank_of_getElem? (h : Sorted s xs) {n : Nat} {x : Int}
    (hn : xs[n]? = some x) : encodeRank xs x = n := by
  obtain ⟨hmem, hrank⟩ := (getElem?_eq_some_iff_rank h.sorted).mp hn
  rw [encodeRank, if_pos hmem, hrank]

/-- The elements before the rank are smaller and those behind it larger. -/
theorem Sorted.split_rank (h : Sorted s xs) {x : Int} (hnot : x ∉ xs) :
    (∀ y ∈ xs.take (rank xs x), y < x) ∧ ∀ y ∈ xs.drop (rank xs x), x < y := by
  constructor
  · intro y hy
    obtain ⟨i, hi, rfl⟩ := List.mem_iff_getElem.mp hy
    rw [List.length_take] at hi
    rw [List.getElem_take]
    apply (lt_key_iff_lt_rank h.sorted x i _ (List.getElem?_eq_getElem (by omega))).mpr
    omega
  · intro y hy
    obtain ⟨i, hi, rfl⟩ := List.mem_iff_getElem.mp hy
    rw [List.length_drop] at hi
    rw [List.getElem_drop]
    have hget : xs[rank xs x + i]? = some xs[rank xs x + i] := List.getElem?_eq_getElem (by omega)
    have hiff := lt_key_iff_lt_rank h.sorted x _ _ hget
    have hne : xs[rank xs x + i] ≠ x := fun heq => hnot (heq ▸ List.mem_of_getElem? hget)
    omega

theorem Columns.column (h : Columns keys cols V xs ys) (i : ι) :
    (cols i).size = xs.length ∧ (∀ (n : Nat) x, xs[n]? = some x →
      ∃ v, (cols i).get n = .ok v ∧ V i x = some v) ∧ ∀ x, x ∉ xs → V i x = none := by
  refine ⟨by rw [size_eq (h.cols i), h.length i], ?_, ?_⟩
  · intro n x hn
    have hlt : n < (ys i).length := by
      rw [h.length i]
      exact (List.getElem?_eq_some_iff.mp hn).1
    have hget : (ys i)[n]? = some (ys i)[n] := List.getElem?_eq_getElem hlt
    refine ⟨(ys i)[n], get_spec (h.cols i) hget, ?_⟩
    rw [h.value i x, assoc_of_getElem? (nodup_of_sorted h.keys.sorted) hn, hget]
  · intro x hnot
    rw [h.value i x, assoc_of_not_mem hnot]

/-- The columns have room at the index where the keys do. -/
theorem Columns.exists_insert (h : Columns keys cols V xs ys) (x : Int) (vs : ι → Int) (i : ι) :
    ∃ col, (cols i).insertAtIdx (vs i) (rank xs x) = .ok col := by
  obtain ⟨col, hcol, _⟩ := insertAtIdx_spec (h.cols i) (n := rank xs x)
    (by rw [h.length i]; exact rank_le_length xs x) (vs i)
  exact ⟨col, hcol⟩

theorem Columns.inLockstep (h : Columns keys cols V xs ys) : InLockstep keys cols V xs := by
  have habsent : ∀ x, x ∉ xs → (encodeRank xs x + 1) * (-1) = (rank xs x : Int) := by
    intro x hnot
    rw [encodeRank, if_neg hnot]
    ring
  refine ⟨?_, size_eq h.keys.holds, h.keys.sorted, h.keys.small, ?_, ?_, h.column, ?_, ?_, ?_, ?_⟩
  · obtain ⟨rest, helem, hrest⟩ := h.keys.holds.array
    refine ⟨rest.length, ?_⟩
    rw [helem]
    congr 1
    exact List.eq_replicate_of_mem (hrest h.keys.ordered)
  · intro n x hn
    rw [h.keys.getIdx (h.keys.small x (List.mem_of_getElem? hn)), h.keys.encodeRank_of_getElem? hn]
  · intro x hx hnot
    refine ⟨rank xs x, rank_le_length xs x, ?_, h.keys.split_rank hnot⟩
    rw [h.keys.getIdx hx, encodeRank, if_neg hnot]
    congr 1
    omega
  · intro x hx vs
    by_cases hmem : x ∈ xs
    · refine ⟨-1, _, h.keys.insertSorted_present hmem, by simp [hmem], ?_⟩
      intro hne
      exact absurd rfl hne
    · obtain ⟨keys', hrun, _⟩ := h.keys.insertSorted_absent hx hmem
      refine ⟨_, keys', hrun, ?_, fun _ => h.exists_insert x vs⟩
      constructor
      · intro hneg
        omega
      · intro hmem'
        exact absurd hmem' hmem
  · intro x hx hnot vs
    obtain ⟨keys', hrun, _⟩ := h.keys.insertAtIdx hx hnot
    refine ⟨_, keys', h.keys.getIdx hx, ?_, ?_⟩
    · rw [habsent x hnot]
      exact hrun
    · rw [habsent x hnot]
      exact h.exists_insert x vs
  · intro n hn
    constructor
    · obtain ⟨keys', hrun, _⟩ := h.keys.removeAtIdx hn
      exact ⟨keys', hrun⟩
    · intro i
      obtain ⟨col, hrun, _⟩ := removeAtIdx_spec (h.cols i) (n := n) (by rw [h.length i]; exact hn)
      exact ⟨col, hrun⟩
  · intro n hn i v
    obtain ⟨col, hrun, _⟩ := updateValue_spec (h.cols i) (n := n) (by rw [h.length i]; exact hn) v
    exact ⟨col, hrun⟩

/-- In every run the array is sorted and padded, each value stays with its element,
and the next operation returns. -/
theorem inLockstep_of_reached [DecidableEq ι] {size sizeIncrease : Nat}
    {sizes sizeIncreases : ι → Nat}
    (h : Reached size sizeIncrease sizes sizeIncreases keys cols V) (hinc : 0 < sizeIncrease)
    (hincs : ∀ i, 0 < sizeIncreases i) : ∃ xs, InLockstep keys cols V xs := by
  obtain ⟨xs, ys, hc⟩ := h.columns hinc hincs
  exact ⟨xs, hc.inLockstep⟩

/-- Two insertions into full arrays, the second one at the front. -/
theorem inLockstep_of_reached_pair : ∃ keys cols, Reached 1 1 (fun _ : Bool => 1) (fun _ => 1) keys
    cols (fun i y => if y = 3 then some (if i then 30 else 31)
      else if y = 5 then some (if i then 50 else 51) else none) ∧
    ∃ xs, InLockstep keys cols (fun i y => if y = 3 then some (if i then 30 else 31)
      else if y = 5 then some (if i then 50 else 51) else none) xs := by
  have h₀ : Reached 1 1 (fun _ : Bool => 1) (fun _ => 1) _ _ _ := Reached.start
  have h₁ : Reached 1 1 (fun _ : Bool => 1) (fun _ => 1) ⟨true, [5], 1, 1⟩
      (fun i => ⟨false, [if i then 50 else 51], 1, 1⟩)
      (fun i y => if y = 5 then some (if i then 50 else 51) else none) :=
    h₀.insertSorted (by decide) rfl (by decide) (by decide)
  have h₂ : Reached 1 1 (fun _ : Bool => 1) (fun _ => 1) ⟨true, [3, 5], 2, 1⟩
      (fun i => ⟨false, [if i then 30 else 31, if i then 50 else 51], 2, 1⟩)
      (fun i y => if y = 3 then some (if i then 30 else 31)
        else if y = 5 then some (if i then 50 else 51) else none) :=
    h₁.insertAtIdx (by decide) rfl (by decide) (by decide) (by decide)
  exact ⟨_, _, h₂, inLockstep_of_reached h₂ (by decide) (by decide)⟩

end columns

end OrderedIntSet

end SeaRouter
