import SeaRouter.Lib.BinHeap
import SeaRouter.Lib.SortedArray

/-!
# `utils/DistanceHeap.java`

The heap keeps the ids it contains in a sorted array, so that a binary search
finds the index at which two more arrays hold the distance of an id and its
position in the heap array.  `Holds h M` says that the four arrays of `h` are
consistent and store the finite map `M` from ids to distances.  The theorems
at the end are the contracts of the operations in terms of that map:
`getNext_spec` takes an id of smallest distance out of it and `add_spec` puts
one in.  `Stores` says the same of the arrays with the lists that they hold.
-/

namespace SeaRouter

open Java

/-- The fields of `DistanceHeap`. -/
structure DistanceHeap where
  sizeIncrease : Int
  containedIds : List Int
  distances : List Int
  heapPosition : List Int
  idHeapArray : List Int
  currentSize : Int
deriving DecidableEq, Repr

namespace DistanceHeap

/-- `DistanceHeap(initialSize, sizeIncrease)`. -/
def new (initialSize sizeIncrease : Nat) : DistanceHeap where
  sizeIncrease := sizeIncrease
  containedIds := List.replicate initialSize MAX_VALUE
  distances := List.replicate initialSize 0
  heapPosition := List.replicate initialSize 0
  idHeapArray := List.replicate initialSize 0
  currentSize := 0

/-- `DistanceHeap()`, with the default sizes of the class. -/
def newDefault : DistanceHeap := new 10 5

def reset (h : DistanceHeap) : DistanceHeap :=
  { h with currentSize := 0, containedIds := List.replicate h.containedIds.length MAX_VALUE }

def isEmpty (h : DistanceHeap) : Bool := h.currentSize == 0

def grow (h : DistanceHeap) : DistanceHeap :=
  { h with
    idHeapArray := growBy h.idHeapArray h.sizeIncrease 0
    distances := growBy h.distances h.sizeIncrease 0
    containedIds := growBy h.containedIds h.sizeIncrease MAX_VALUE
    heapPosition := growBy h.heapPosition h.sizeIncrease 0 }

def compareValues (h : DistanceHeap) (firstID secondID : Int) : Run Int := do
  let positionIdx1 ← binarySearch h.containedIds (← rd h.idHeapArray firstID)
  let positionIdx2 ← binarySearch h.containedIds (← rd h.idHeapArray secondID)
  let d1 ← rd h.distances positionIdx1
  let d2 ← rd h.distances positionIdx2
  if d1 = d2 then return 0 else if d2 < d1 then return 1 else return -1

def swap (h : DistanceHeap) (i j : Int) : Run DistanceHeap := do
  let tmp ← rd h.idHeapArray i
  let idJ ← rd h.idHeapArray j
  let ids ← wr h.idHeapArray i idJ
  let ids ← wr ids j tmp
  -- update positions in heap information
  let positionIdxI ← binarySearch h.containedIds (← rd ids i)
  let positionIdxJ ← binarySearch h.containedIds (← rd ids j)
  let tmp ← rd h.heapPosition positionIdxI
  let posJ ← rd h.heapPosition positionIdxJ
  let pos ← wr h.heapPosition positionIdxI posJ
  let pos ← wr pos positionIdxJ tmp
  return { h with idHeapArray := ids, heapPosition := pos }

def heapifyTopDown (h : DistanceHeap) (n root : Int) : Run DistanceHeap :=
  BinHeap.heapifyTopDown compareValues swap (n.toNat + 1) h n root

def heapifyBottomUp (h : DistanceHeap) (nodeID : Int) : Run DistanceHeap :=
  BinHeap.heapifyBottomUp compareValues swap (nodeID.toNat + 1) h nodeID

/-- The block copies with which `getNext` takes `deleteIdx` out of the three
arrays that are ordered by id. -/
def removeIdx (h : DistanceHeap) (deleteIdx : Int) : Run DistanceHeap := do
  if deleteIdx < h.currentSize then
    let containedIds ← shiftRemove h.containedIds deleteIdx h.currentSize
    let distances ← shiftRemove h.distances deleteIdx h.currentSize
    let heapPosition ← shiftRemove h.heapPosition deleteIdx h.currentSize
    return { h with
      containedIds := containedIds, distances := distances, heapPosition := heapPosition }
  else return h

def getNext (h : DistanceHeap) : Run (Int × DistanceHeap) := do
  let returnValue ← rd h.idHeapArray 0
  let deleteIdx ← binarySearch h.containedIds returnValue
  let currentSize := h.currentSize - 1
  let last ← rd h.idHeapArray currentSize
  let idHeapArray ← wr h.idHeapArray 0 last
  let positionIdx ← binarySearch h.containedIds last
  let heapPosition ← wr h.heapPosition positionIdx 0
  let h ← heapifyTopDown
    { h with currentSize := currentSize, idHeapArray := idHeapArray, heapPosition := heapPosition }
    currentSize 0
  let h ← removeIdx h deleteIdx
  let containedIds ← wr h.containedIds h.currentSize MAX_VALUE
  return (returnValue, { h with containedIds := containedIds })

/-- `grow()` if the arrays are full. -/
def growIfFull (h : DistanceHeap) : DistanceHeap :=
  if h.currentSize = h.idHeapArray.length then grow h else h

def add (h : DistanceHeap) (id distance : Int) : Run DistanceHeap := do
  let idx ← binarySearch h.containedIds id
  if 0 ≤ idx then
    let distances ← wr h.distances idx distance
    -- update, do not add again
    heapifyBottomUp { h with distances := distances } (← rd h.heapPosition idx)
  else
    let h := growIfFull h
    let insertIdx := (idx + 1) * (-1)
    let containedIds ← shiftInsert h.containedIds insertIdx h.currentSize id
    let distances ← shiftInsert h.distances insertIdx h.currentSize distance
    let idHeapArray ← wr h.idHeapArray h.currentSize id
    let heapPosition ← shiftInsert h.heapPosition insertIdx h.currentSize h.currentSize
    let h ← heapifyBottomUp
      { h with
        containedIds := containedIds, distances := distances, idHeapArray := idHeapArray
        heapPosition := heapPosition }
      h.currentSize
    return { h with currentSize := h.currentSize + 1 }

/-! ## The arrays of a heap -/

/-- The values in the four arrays: `xs` are the contained ids in order, `ds`
and `ps` their distances and positions, and `ids` is the heap. -/
structure Layout (h : DistanceHeap) (xs ds ps ids : List Int) (free : Nat) : Prop where
  contained : Padded h.containedIds xs free
  dist : ∃ rest, h.distances = ds ++ rest ∧ rest.length = free
  pos : ∃ rest, h.heapPosition = ps ++ rest ∧ rest.length = free
  heap : ∃ rest, h.idHeapArray = ids ++ rest ∧ rest.length = free
  distLength : ds.length = xs.length
  posLength : ps.length = xs.length
  heapLength : ids.length = xs.length
  size : h.currentSize = xs.length

/-- The distance by which the heap is ordered. -/
def key (xs ds : List Int) (x : Int) : Int := (assoc xs ds x).getD 0

/-- The heap stores the finite map `M`. -/
def Holds (h : DistanceHeap) (M : Int → Option Int) : Prop :=
  0 < h.sizeIncrease ∧ ∃ xs ds ps ids free, Layout h xs ds ps ids free ∧ ids.Perm xs ∧
    (∀ i, i < ids.length → assoc xs ps (BinHeap.idAt ids i) = some (i : Int)) ∧
    BinHeap.IsHeap (key xs ds) ids ∧ M = assoc xs ds

/-- The arrays hold the ids `xs` with the distances `ds`, and the heap `ids`, in which
each id knows its position. -/
structure Stores (h : DistanceHeap) (xs ds ids : List Int) : Prop where
  increase : 0 < h.sizeIncrease
  arrays : ∃ ps free, Layout h xs ds ps ids free ∧
    ∀ i, i < ids.length → assoc xs ps (BinHeap.idAt ids i) = some (i : Int)
  perm : ids.Perm xs

theorem holds_iff {h : DistanceHeap} {M : Int → Option Int} :
    Holds h M ↔ ∃ xs ds ids, Stores h xs ds ids ∧ BinHeap.IsHeap (key xs ds) ids ∧
      M = assoc xs ds := by
  constructor
  · intro hh
    obtain ⟨hinc, xs, ds, ps, ids, free, hl, hperm, hpos, hheap, hM⟩ := hh
    exact ⟨xs, ds, ids, ⟨hinc, ⟨ps, free, hl, hpos⟩, hperm⟩, hheap, hM⟩
  · intro hh
    obtain ⟨xs, ds, ids, ⟨hinc, ⟨ps, free, hl, hpos⟩, hperm⟩, hheap, hM⟩ := hh
    exact ⟨hinc, xs, ds, ps, ids, free, hl, hperm, hpos, hheap, hM⟩

/-! ## The sifts of this heap -/

/-- What a sift keeps: the ids `ids` are in the heap array and each of them
knows its position.  The sorted arrays may hold more ids than the heap. -/
structure Sifting (base : DistanceHeap) (xs restPos restIds : List Int)
    (h : DistanceHeap) (ids : List Int) : Prop where
  frame : ∃ ps, h = { base with heapPosition := ps ++ restPos, idHeapArray := ids ++ restIds } ∧
    ps.length = xs.length ∧
    ∀ i, i < ids.length → assoc xs ps (BinHeap.idAt ids i) = some (i : Int)
  sub : ∀ x ∈ ids, x ∈ xs
  nodup : ids.Nodup

variable {xs ds : List Int} {free : Nat}

theorem rd_ids {ids rest : List Int} {i : Nat} (hi : i < ids.length) :
    rd (ids ++ rest) (i : Int) = .ok (BinHeap.idAt ids i) := by
  rw [rd_append_left (by omega)]
  refine rd_of_getElem? ?_
  rw [BinHeap.idAt_eq_getElem hi, List.getElem?_eq_getElem hi]

theorem wr_swap {ids : List Int} (rest : List Int) {i j : Nat} (hi : i < ids.length)
    (hj : j < ids.length) :
    ∃ a, wr (ids ++ rest) (i : Int) (BinHeap.idAt ids j) = .ok a ∧
      wr a (j : Int) (BinHeap.idAt ids i) = .ok (BinHeap.swapAt ids i j ++ rest) := by
  refine ⟨_, wr_of_bounds _ (by omega) (by simp; omega), ?_⟩
  rw [wr_of_bounds _ (by omega) (by simp; omega)]
  congr 1
  rw [Int.toNat_natCast, Int.toNat_natCast, List.set_append_left _ _ hi,
    List.set_append_left _ _ (by rw [List.length_set]; exact hj)]
  rfl

theorem sifts (base : DistanceHeap) (restPos restIds : List Int)
    (hp : Padded base.containedIds xs free) {rest : List Int} (hd : base.distances = ds ++ rest)
    (hdl : ds.length = xs.length) :
    BinHeap.Sifts (key xs ds) (Sifting base xs restPos restIds) compareValues swap where
  compare := by
    intro h ids i j hs hi hj
    obtain ⟨ps, rfl, hpl, hpos⟩ := hs.frame
    have hxi := hs.sub _ (BinHeap.idAt_mem hi)
    have hxj := hs.sub _ (BinHeap.idAt_mem hj)
    obtain ⟨di, hdi⟩ := exists_assoc_of_mem hdl hxi
    obtain ⟨dj, hdj⟩ := exists_assoc_of_mem hdl hxj
    unfold compareValues
    simp only [rd_ids hi, rd_ids hj, ok_bind, binarySearch_padded hp (hp.small _ hxi),
      binarySearch_padded hp (hp.small _ hxj), hd, rd_encodeRank hp.sorted hdl hdi,
      rd_encodeRank hp.sorted hdl hdj, key, hdi, hdj, Option.getD_some]
    split_ifs <;> rfl
  exchange := by
    intro h ids i j hs hi hj hij
    obtain ⟨ps, rfl, hpl, hpos⟩ := hs.frame
    have hxi := hs.sub _ (BinHeap.idAt_mem hi)
    have hxj := hs.sub _ (BinHeap.idAt_mem hj)
    have hne : BinHeap.idAt ids i ≠ BinHeap.idAt ids j := by
      rw [BinHeap.idAt_eq_getElem hi, BinHeap.idAt_eq_getElem hj]
      exact fun he => hij ((hs.nodup.getElem_inj_iff).mp he)
    obtain ⟨a, ha, ha'⟩ := wr_swap restIds hi hj
    have hlen := BinHeap.swapAt_length ids i j
    have hnewI : BinHeap.idAt (BinHeap.swapAt ids i j) i = BinHeap.idAt ids j := by
      rw [BinHeap.idAt_swapAt hi hj, if_pos rfl]
    have hnewJ : BinHeap.idAt (BinHeap.swapAt ids i j) j = BinHeap.idAt ids i := by
      rw [BinHeap.idAt_swapAt hi hj, if_neg (by omega), if_pos rfl]
    have hpl1 : (ps.set (rank xs (BinHeap.idAt ids j)) (i : Int)).length = xs.length := by
      rw [List.length_set, hpl]
    refine ⟨{ base with
        heapPosition := (ps.set (rank xs (BinHeap.idAt ids j)) (i : Int)).set
          (rank xs (BinHeap.idAt ids i)) (j : Int) ++ restPos
        idHeapArray := BinHeap.swapAt ids i j ++ restIds }, ?_, ?_⟩
    · unfold swap
      simp only [rd_ids hi, rd_ids hj, ok_bind, ha, ha',
        rd_ids (show i < (BinHeap.swapAt ids i j).length by omega),
        rd_ids (show j < (BinHeap.swapAt ids i j).length by omega), hnewI, hnewJ,
        binarySearch_padded hp (hp.small _ hxi), binarySearch_padded hp (hp.small _ hxj),
        rd_encodeRank hp.sorted hpl (hpos i hi), rd_encodeRank hp.sorted hpl (hpos j hj),
        wr_encodeRank hp.sorted hpl hxj, wr_encodeRank hp.sorted hpl1 hxi]
      rfl
    · refine ⟨⟨_, rfl, by rw [List.length_set, hpl1], ?_⟩, ?_, ?_⟩
      · intro m hm
        rw [hlen] at hm
        rw [assoc_set_rank hp.sorted hpl1 hxi, assoc_set_rank hp.sorted hpl hxj,
          BinHeap.idAt_swapAt hi hj]
        have hinj : ∀ k, k < ids.length → (BinHeap.idAt ids m = BinHeap.idAt ids k ↔ m = k) := by
          intro k hk
          rw [BinHeap.idAt_eq_getElem hm, BinHeap.idAt_eq_getElem hk, hs.nodup.getElem_inj_iff]
        by_cases hmi : m = i
        · rw [if_pos hmi, if_neg (Ne.symm hne), if_pos rfl, hmi]
        · by_cases hmj : m = j
          · rw [if_neg hmi, if_pos hmj, if_pos rfl, hmj]
          · rw [if_neg hmi, if_neg hmj, if_neg (by rw [hinj i hi]; exact hmi),
              if_neg (by rw [hinj j hj]; exact hmj)]
            exact hpos m hm
      · intro x hx
        exact hs.sub x ((BinHeap.swapAt_perm hi hj).mem_iff.mp hx)
      · exact (BinHeap.swapAt_perm hi hj).nodup_iff.mpr hs.nodup

/-! ## The arrays after the operations -/

theorem new_stores (initialSize : Nat) {sizeIncrease : Nat} (h : 0 < sizeIncrease) :
    Stores (new initialSize sizeIncrease) [] [] [] := by
  refine ⟨by simp [new]; omega, ⟨[], initialSize, ⟨⟨rfl, by simp, by simp⟩, ⟨_, rfl, by simp⟩,
    ⟨_, rfl, by simp⟩, ⟨_, rfl, by simp⟩, rfl, rfl, rfl, rfl⟩, ?_⟩, List.Perm.refl _⟩
  intro i hi
  simp at hi

/-- The arrays of the heap have one length, whatever they hold. -/
structure Equal (h : DistanceHeap) : Prop where
  increase : 0 < h.sizeIncrease
  distances : h.distances.length = h.containedIds.length
  heapPosition : h.heapPosition.length = h.containedIds.length
  idHeapArray : h.idHeapArray.length = h.containedIds.length

theorem Equal.reset_stores {h : DistanceHeap} (he : Equal h) : Stores (reset h) [] [] [] := by
  refine ⟨he.increase, ⟨[], h.containedIds.length, ⟨⟨rfl, by simp, by simp⟩,
    ⟨h.distances, rfl, he.distances⟩, ⟨h.heapPosition, rfl, he.heapPosition⟩,
    ⟨h.idHeapArray, rfl, he.idHeapArray⟩, rfl, rfl, rfl, rfl⟩, ?_⟩, List.Perm.refl _⟩
  intro i hi
  simp at hi

namespace Stores

variable {h : DistanceHeap} {ids : List Int}

theorem equal (hs : Stores h xs ds ids) : Equal h := by
  obtain ⟨ps, free, hl, _⟩ := hs.arrays
  obtain ⟨restD, hd, hdl⟩ := hl.dist
  obtain ⟨restP, hp, hpl⟩ := hl.pos
  obtain ⟨restI, hi, hil⟩ := hl.heap
  have hlen : h.containedIds.length = xs.length + free := by rw [hl.contained.eq]; simp
  refine ⟨hs.increase, ?_, ?_, ?_⟩
  · rw [hd, List.length_append, hl.distLength, hdl, hlen]
  · rw [hp, List.length_append, hl.posLength, hpl, hlen]
  · rw [hi, List.length_append, hl.heapLength, hil, hlen]

theorem distLength (hs : Stores h xs ds ids) : ds.length = xs.length := by
  obtain ⟨ps, free, hl, _⟩ := hs.arrays
  exact hl.distLength

theorem sorted (hs : Stores h xs ds ids) : xs.Pairwise (· < ·) := by
  obtain ⟨ps, free, hl, _⟩ := hs.arrays
  exact hl.contained.sorted

theorem nodup (hs : Stores h xs ds ids) : ids.Nodup :=
  hs.perm.nodup_iff.mpr (nodup_of_sorted hs.sorted)

theorem size (hs : Stores h xs ds ids) : h.currentSize = ids.length := by
  obtain ⟨ps, free, hl, _⟩ := hs.arrays
  rw [hl.size, hl.heapLength]

theorem isEmpty_eq (hs : Stores h xs ds ids) : isEmpty h = ids.isEmpty := by
  rw [isEmpty, hs.size]
  cases ids with
  | nil => rfl
  | cons r tail =>
    simp only [List.length_cons, List.isEmpty_cons, beq_eq_false_iff_ne, ne_eq]
    omega

end Stores

/-- The keys after the distance of an id was set. -/
theorem key_set_rank (hs : xs.Pairwise (· < ·)) (hdl : ds.length = xs.length) {id : Int}
    (hmem : id ∈ xs) (d x : Int) :
    key xs (ds.set (rank xs id) d) x = if x = id then d else key xs ds x := by
  rw [key, assoc_set_rank hs hdl hmem]
  split_ifs <;> rfl

/-- The keys after an id was inserted. -/
theorem key_insertIdx_rank (hdl : ds.length = xs.length) {id : Int} (hnot : id ∉ xs) (d x : Int) :
    key (xs.insertIdx (rank xs id) id) (ds.insertIdx (rank xs id) d) x
      = if x = id then d else key xs ds x := by
  rw [key, assoc_insertIdx_rank hdl hnot]
  split_ifs <;> rfl

/-- `add` of an id that the heap contains. -/
theorem Stores.add_update {h : DistanceHeap} {ids : List Int} (hh : Stores h xs ds ids) {i : Nat}
    (hi : i < ids.length) (d : Int) :
    ∃ h', add h (BinHeap.idAt ids i) d = .ok h' ∧
      Stores h' xs (ds.set (rank xs (BinHeap.idAt ids i)) d)
        (BinHeap.siftUp (key xs (ds.set (rank xs (BinHeap.idAt ids i)) d)) (i + 1) ids i) := by
  obtain ⟨hinc, ⟨ps, free, hl, hpos⟩, hperm⟩ := hh
  obtain ⟨restD, hd, hrd⟩ := hl.dist
  obtain ⟨restP, hp, hrp⟩ := hl.pos
  obtain ⟨restI, hia, hri⟩ := hl.heap
  set id := BinHeap.idAt ids i with hid
  have hmem : id ∈ xs := hperm.mem_iff.mp (BinHeap.idAt_mem hi)
  have hs := hl.contained.sorted
  have hds' : (ds.set (rank xs id) d).length = xs.length := by
    rw [List.length_set, hl.distLength]
  have hstart : Sifting { h with distances := ds.set (rank xs id) d ++ restD } xs restP restI
      { h with distances := ds.set (rank xs id) d ++ restD } ids := by
    refine ⟨⟨ps, ?_, hl.posLength, hpos⟩, fun x hx => hperm.mem_iff.mp hx,
      hperm.nodup_iff.mpr (nodup_of_sorted hs)⟩
    simp only [← hp, ← hia]
  obtain ⟨h', hrun, hsift⟩ := BinHeap.heapifyBottomUp_eq
    (sifts { h with distances := ds.set (rank xs id) d ++ restD } restP restI hl.contained rfl
      hds')
    (i + 1) _ ids i (Nat.lt_succ_self i) hi hstart
  have hperm' := BinHeap.siftUp_perm (key xs (ds.set (rank xs id) d)) (i + 1) ids i hi
  refine ⟨h', ?_, ?_⟩
  · unfold add
    have hidx : encodeRank xs id = (rank xs id : Int) := by rw [encodeRank, if_pos hmem]
    have hposid : rd h.heapPosition (encodeRank xs id) = .ok (i : Int) := by
      rw [hp]
      exact rd_encodeRank hs hl.posLength (hpos i hi)
    simp only [binarySearch_padded hl.contained (hl.contained.small id hmem), ok_bind]
    rw [if_pos (by omega), hd, wr_encodeRank hs hl.distLength hmem, ok_bind, hposid, ok_bind,
      heapifyBottomUp, Int.toNat_natCast, hrun]
  · obtain ⟨ps', rfl, hpl', hpos'⟩ := hsift.frame
    have hids' := hperm'.length_eq.trans hl.heapLength
    exact ⟨hinc, ⟨ps', free, ⟨hl.contained, ⟨restD, rfl, hrd⟩, ⟨restP, rfl, hrp⟩,
      ⟨restI, rfl, hri⟩, hds', hpl', hids', hl.size⟩, hpos'⟩, hperm'.trans hperm⟩

theorem growIfFull_layout {h : DistanceHeap} {xs ds ps ids : List Int} {free : Nat}
    (hinc : 0 < h.sizeIncrease) (hl : Layout h xs ds ps ids free) :
    ∃ free', Layout (growIfFull h) xs ds ps ids (free' + 1) ∧
      (growIfFull h).sizeIncrease = h.sizeIncrease := by
  obtain ⟨restD, hd, hrd⟩ := hl.dist
  obtain ⟨restP, hp, hrp⟩ := hl.pos
  obtain ⟨restI, hi, hri⟩ := hl.heap
  have hcap : h.idHeapArray.length = xs.length + free := by
    rw [hi, List.length_append, hl.heapLength, hri]
  unfold growIfFull
  split_ifs with hfull
  · obtain ⟨k, hk⟩ : ∃ k : Nat, h.sizeIncrease.toNat = k + 1 :=
      ⟨h.sizeIncrease.toNat - 1, by omega⟩
    have hfree : free = 0 := by
      rw [hl.size] at hfull
      omega
    subst hfree
    refine ⟨k, ⟨⟨?_, hl.contained.sorted, hl.contained.small⟩,
      ⟨restD ++ List.replicate (k + 1) 0, ?_, ?_⟩,
      ⟨restP ++ List.replicate (k + 1) 0, ?_, ?_⟩, ⟨restI ++ List.replicate (k + 1) 0, ?_, ?_⟩,
      hl.distLength, hl.posLength, hl.heapLength, hl.size⟩, rfl⟩
    · simp [grow, growBy, hk, hl.contained.eq]
    · simp [grow, growBy, hk, hd]
    · simp [hrd]
    · simp [grow, growBy, hk, hp]
    · simp [hrp]
    · simp [grow, growBy, hk, hi]
    · simp [hri]
  · obtain ⟨k, rfl⟩ : ∃ k, free = k + 1 := by
      refine ⟨free - 1, ?_⟩
      rw [hl.size] at hfull
      omega
    exact ⟨k, hl, rfl⟩

/-- An id behind all others in the heap array, with its position at its rank. -/
theorem assoc_position_snoc {ps ids : List Int} (hpl : ps.length = xs.length)
    (hlen : ids.length = xs.length) {id : Int} (hnot : id ∉ xs) (hids : id ∉ ids)
    (hpos : ∀ i, i < ids.length → assoc xs ps (BinHeap.idAt ids i) = some (i : Int)) {m : Nat}
    (hm : m < (ids ++ [id]).length) :
    assoc (xs.insertIdx (rank xs id) id) (ps.insertIdx (rank xs id) (xs.length : Int))
      (BinHeap.idAt (ids ++ [id]) m) = some (m : Int) := by
  rw [List.length_append, List.length_singleton] at hm
  rw [assoc_insertIdx_rank hpl hnot]
  rcases Nat.lt_or_ge m ids.length with hlt | hge
  · have hidm : BinHeap.idAt (ids ++ [id]) m = BinHeap.idAt ids m := by
      simp only [BinHeap.idAt, List.getD_eq_getElem?_getD]
      rw [List.getElem?_append_left hlt]
    have hne : BinHeap.idAt ids m ≠ id := fun he => hids (he ▸ BinHeap.idAt_mem hlt)
    rw [hidm, if_neg hne]
    exact hpos m hlt
  · have hm' : m = ids.length := by omega
    have hidm : BinHeap.idAt (ids ++ [id]) m = id := by
      simp [BinHeap.idAt, hm']
    rw [if_pos hidm, hm', hlen]

/-- The heap with a new id behind all others, before it rises. -/
theorem sifting_snoc {base : DistanceHeap} {ps ids restP restI : List Int}
    (hs : xs.Pairwise (· < ·)) (hperm : ids.Perm xs) (hpl : ps.length = xs.length) {id : Int}
    (hnot : id ∉ xs)
    (hpos : ∀ i, i < ids.length → assoc xs ps (BinHeap.idAt ids i) = some (i : Int)) :
    Sifting base (xs.insertIdx (rank xs id) id) restP restI
      { base with
        idHeapArray := (ids ++ [id]) ++ restI
        heapPosition := ps.insertIdx (rank xs id) (xs.length : Int) ++ restP }
      (ids ++ [id]) := by
  have hle := rank_le_length xs id
  have hids : id ∉ ids := fun h => hnot (hperm.mem_iff.mp h)
  refine ⟨⟨_, rfl, ?_, ?_⟩, ?_, ?_⟩
  · rw [List.length_insertIdx_of_le_length hle,
      List.length_insertIdx_of_le_length (by rw [hpl]; exact hle), hpl]
  · intro m hm
    exact assoc_position_snoc hpl hperm.length_eq hnot hids hpos hm
  · intro x hx
    rw [mem_insertIdx_rank]
    rcases List.mem_append.mp hx with hx | hx
    · exact Or.inr (hperm.mem_iff.mp hx)
    · exact Or.inl (List.mem_singleton.mp hx)
  · rw [List.nodup_append]
    refine ⟨hperm.nodup_iff.mpr (nodup_of_sorted hs), List.nodup_singleton id, ?_⟩
    intro a ha b hb hab
    rw [List.mem_singleton.mp hb] at hab
    exact hids (hab ▸ ha)

/-- `add` of a new id writes it into the four arrays, then lets it rise. -/
theorem add_new_eq {h : DistanceHeap} {ps ids : List Int} {id : Int}
    (hsearch : binarySearch h.containedIds id = .ok (encodeRank xs id)) (hnot : id ∉ xs)
    (hl : Layout (growIfFull h) xs ds ps ids (free + 1)) (d : Int) :
    ∃ restD restP restI, restD.length = free ∧ restP.length = free ∧ restI.length = free ∧
      add h id d = (do
        let h' ← heapifyBottomUp
          { growIfFull h with
            containedIds := xs.insertIdx (rank xs id) id ++ List.replicate free MAX_VALUE
            distances := ds.insertIdx (rank xs id) d ++ restD
            idHeapArray := (ids ++ [id]) ++ restI
            heapPosition := ps.insertIdx (rank xs id) (xs.length : Int) ++ restP } xs.length
        return { h' with currentSize := h'.currentSize + 1 }) := by
  have hle := rank_le_length xs id
  have hidx : encodeRank xs id = -((rank xs id : Int) + 1) := by rw [encodeRank, if_neg hnot]
  set g := growIfFull h with hg
  obtain ⟨restD, hd, hrd⟩ := hl.dist
  obtain ⟨restP, hp, hrp⟩ := hl.pos
  obtain ⟨restI, hi, hri⟩ := hl.heap
  obtain ⟨yd, restD, rfl⟩ := List.exists_cons_of_length_eq_add_one hrd
  obtain ⟨yp, restP, rfl⟩ := List.exists_cons_of_length_eq_add_one hrp
  obtain ⟨yi, restI, rfl⟩ := List.exists_cons_of_length_eq_add_one hri
  have hcont : shiftInsert g.containedIds (rank xs id) xs.length id
      = .ok (xs.insertIdx (rank xs id) id ++ List.replicate free MAX_VALUE) := by
    rw [hl.contained.eq, List.replicate_succ, shiftInsert_eq _ _ _ hle]
  have hdist : shiftInsert g.distances (rank xs id) xs.length d
      = .ok (ds.insertIdx (rank xs id) d ++ restD) := by
    rw [hd, ← hl.distLength, shiftInsert_eq _ _ _ (by rw [hl.distLength]; exact hle)]
  have hposA : shiftInsert g.heapPosition (rank xs id) xs.length (xs.length : Int)
      = .ok (ps.insertIdx (rank xs id) (xs.length : Int) ++ restP) := by
    rw [hp]
    conv_lhs => rw [← hl.posLength]
    rw [shiftInsert_eq _ _ _ (by rw [hl.posLength]; exact hle), hl.posLength]
  have hheapA : wr g.idHeapArray xs.length id = .ok ((ids ++ [id]) ++ restI) := by
    rw [hi, wr_of_bounds _ (by omega) (by simp [hl.heapLength]), Int.toNat_natCast,
      ← hl.heapLength]
    simp
  refine ⟨restD, restP, restI, by simpa using hrd, by simpa using hrp, by simpa using hri, ?_⟩
  unfold add
  simp only [hsearch, ok_bind, hidx]
  rw [if_neg (by omega), show (-((rank xs id : Int) + 1) + 1) * (-1) = (rank xs id : Int) by ring]
  simp only [← hg, hl.size, hcont, hdist, hposA, hheapA, ok_bind]

/-- `add` of an id that the heap does not contain. -/
theorem Stores.add_insert {h : DistanceHeap} {ids : List Int} (hh : Stores h xs ds ids)
    {id : Int} (hmax : id < MAX_VALUE) (hnot : id ∉ xs) (d : Int) :
    ∃ h', add h id d = .ok h' ∧
      Stores h' (xs.insertIdx (rank xs id) id) (ds.insertIdx (rank xs id) d)
        (BinHeap.siftUp (key (xs.insertIdx (rank xs id) id) (ds.insertIdx (rank xs id) d))
          (ids.length + 1) (ids ++ [id]) ids.length) := by
  obtain ⟨hinc, ⟨ps, free₀, hl₀, hpos⟩, hperm⟩ := hh
  have hsearch := binarySearch_padded hl₀.contained hmax
  obtain ⟨free, hl, hinc'⟩ := growIfFull_layout hinc hl₀
  have hle := rank_le_length xs id
  obtain ⟨restD, restP, restI, hrd, hrp, hri, hadd⟩ := add_new_eq hsearch hnot hl d
  have hlen' : (xs.insertIdx (rank xs id) id).length = xs.length + 1 :=
    List.length_insertIdx_of_le_length hle id
  have hdl' : (ds.insertIdx (rank xs id) d).length = (xs.insertIdx (rank xs id) id).length := by
    rw [hlen', List.length_insertIdx_of_le_length (by rw [hl.distLength]; exact hle), hl.distLength]
  have hpad := hl.contained.insert hmax hnot free
  obtain ⟨h', hrun, hsift⟩ := BinHeap.heapifyBottomUp_eq
    (sifts
      { growIfFull h with
        containedIds := xs.insertIdx (rank xs id) id ++ List.replicate free MAX_VALUE
        distances := ds.insertIdx (rank xs id) d ++ restD } restP restI hpad rfl hdl')
    (ids.length + 1) _ (ids ++ [id]) ids.length (Nat.lt_succ_self _) (by simp)
    (sifting_snoc hl.contained.sorted hperm hl.posLength hnot hpos)
  set ids' := BinHeap.siftUp (key (xs.insertIdx (rank xs id) id) (ds.insertIdx (rank xs id) d))
    (ids.length + 1) (ids ++ [id]) ids.length with hids'
  have hperm' : ids'.Perm (ids ++ [id]) := BinHeap.siftUp_perm _ _ _ _ (by simp)
  obtain ⟨ps', rfl, hpl', hpos'⟩ := hsift.frame
  refine ⟨{ growIfFull h with
      containedIds := xs.insertIdx (rank xs id) id ++ List.replicate free MAX_VALUE
      distances := ds.insertIdx (rank xs id) d ++ restD
      heapPosition := ps' ++ restP
      idHeapArray := ids' ++ restI
      currentSize := (growIfFull h).currentSize + 1 }, ?_, ?_⟩
  · rw [hl.heapLength] at hrun
    simp only [hadd, heapifyBottomUp, Int.toNat_natCast, hrun, ok_bind, pure_eq_ok]
  · refine ⟨by rw [← hinc'] at hinc; exact hinc, ⟨ps', free, ⟨hpad, ⟨restD, rfl, hrd⟩,
      ⟨restP, rfl, hrp⟩, ⟨restI, rfl, hri⟩, hdl', hpl', ?_, ?_⟩, hpos'⟩, ?_⟩
    · rw [hperm'.length_eq, hlen']
      simp [hl.heapLength]
    · simp only [hl.size, hlen']
      push_cast
      rfl
    · refine hperm'.trans ?_
      refine (List.perm_append_comm).trans ?_
      refine (List.Perm.cons id hperm).trans ?_
      exact (List.perm_insertIdx id xs hle).symm

/-- `removeIdx` takes one index out of the three arrays that are ordered by id. -/
theorem removeIdx_eq {h : DistanceHeap} {xs ds ps rc rd rp : List Int}
    (hc : h.containedIds = xs ++ rc) (hd : h.distances = ds ++ rd)
    (hp : h.heapPosition = ps ++ rp) (hdl : ds.length = xs.length) (hpl : ps.length = xs.length)
    (hsize : h.currentSize = (xs.length : Int) - 1) {n : Nat} (hn : n < xs.length) :
    ∃ y₁ y₂ y₃, removeIdx h n = .ok { h with
      containedIds := xs.eraseIdx n ++ y₁ :: rc
      distances := ds.eraseIdx n ++ y₂ :: rd
      heapPosition := ps.eraseIdx n ++ y₃ :: rp } := by
  unfold removeIdx
  split_ifs with hlt
  · obtain ⟨y₁, h₁⟩ := shiftRemove_eq xs rc hn
    obtain ⟨y₂, h₂⟩ := shiftRemove_eq ds rd (hdl ▸ hn)
    obtain ⟨y₃, h₃⟩ := shiftRemove_eq ps rp (hpl ▸ hn)
    rw [hdl] at h₂
    rw [hpl] at h₃
    refine ⟨y₁, y₂, y₃, ?_⟩
    simp only [hc, hd, hp, hsize, h₁, h₂, h₃, ok_bind, pure_eq_ok]
  · -- the last index of the arrays: nothing is copied
    have hlast : n = xs.length - 1 := by omega
    have herase : ∀ l rest : List Int, l.length = xs.length →
        ∃ y, l.eraseIdx n ++ y :: rest = l ++ rest := by
      intro l rest hl
      have hne : l ≠ [] := by
        rintro rfl
        simp at hl
        omega
      refine ⟨l.getLast hne, ?_⟩
      rw [hlast, ← hl, List.eraseIdx_length_sub_one, List.append_cons,
        List.dropLast_append_getLast hne]
    obtain ⟨y₁, h₁⟩ := herase xs rc rfl
    obtain ⟨y₂, h₂⟩ := herase ds rd hdl
    obtain ⟨y₃, h₃⟩ := herase ps rp hpl
    refine ⟨y₁, y₂, y₃, ?_⟩
    rw [h₁, h₂, h₃, ← hc, ← hd, ← hp]
    rfl

/-- The arrays after the root of the heap gave way to the last id, before the
sift: the removed id `r` is still in the sorted arrays. -/
theorem sifting_replace_root (h : DistanceHeap) (restP restI : List Int) {xs ps : List Int}
    {r last : Int} {mid : List Int} (hnd : (r :: (mid ++ [last])).Nodup)
    (hsub : ∀ x ∈ r :: (mid ++ [last]), x ∈ xs) (hs : xs.Pairwise (· < ·))
    (hpl : ps.length = xs.length)
    (hpos : ∀ i, i < (r :: (mid ++ [last])).length →
      assoc xs ps (BinHeap.idAt (r :: (mid ++ [last])) i) = some (i : Int)) :
    Sifting h xs restP (last :: restI)
      { h with
        heapPosition := ps.set (rank xs last) 0 ++ restP
        idHeapArray := (last :: mid) ++ last :: restI } (last :: mid) := by
  have hlast : last ∈ xs := hsub last (by simp)
  have hnd' : (last :: mid).Nodup := by
    have h1 := (List.nodup_cons.mp hnd).2
    exact (List.perm_append_singleton last mid).nodup_iff.mp h1
  refine ⟨⟨_, rfl, by rw [List.length_set, hpl], ?_⟩, ?_, hnd'⟩
  · intro i hi
    rw [assoc_set_rank hs hpl hlast]
    cases i with
    | zero => rw [if_pos (by rfl)]; rfl
    | succ i =>
      have hi' : i < mid.length := by simpa using hi
      have hid : BinHeap.idAt (last :: mid) (i + 1) = mid[i] := by
        simp [BinHeap.idAt, hi']
      have hid' : BinHeap.idAt (r :: (mid ++ [last])) (i + 1) = mid[i] := by
        simp [BinHeap.idAt, hi', List.getElem?_append_left]
      have hne : mid[i] ≠ last := fun he =>
        (List.nodup_cons.mp hnd').1 (he ▸ List.getElem_mem hi')
      rw [hid, if_neg hne, ← hid']
      exact hpos (i + 1) (by simp; omega)
  · intro x hx
    refine hsub x ?_
    rcases List.mem_cons.mp hx with rfl | hx <;> simp_all

/-- The heap after `removeIdx`: the ids that are left keep their distances and
positions. -/
theorem stores_erase {base : DistanceHeap} {xs ds ps ids restD restP restI : List Int}
    {free : Nat} {r y₂ y₃ : Int} (hinc : 0 < base.sizeIncrease)
    (hs : xs.Pairwise (· < ·)) (hsmall : ∀ x ∈ xs, x < MAX_VALUE)
    (hdl : ds.length = xs.length) (hpl : ps.length = xs.length)
    (hrd : restD.length = free) (hrp : restP.length = free) (hri : restI.length = free + 1)
    (hperm : (r :: ids).Perm xs) (hsize : base.currentSize = (xs.length : Int) - 1)
    (hpos : ∀ i, i < ids.length → assoc xs ps (BinHeap.idAt ids i) = some (i : Int)) :
    Stores { base with
        containedIds := xs.eraseIdx (rank xs r) ++ MAX_VALUE :: List.replicate free MAX_VALUE
        distances := ds.eraseIdx (rank xs r) ++ y₂ :: restD
        heapPosition := ps.eraseIdx (rank xs r) ++ y₃ :: restP
        idHeapArray := ids ++ restI }
      (xs.eraseIdx (rank xs r)) (ds.eraseIdx (rank xs r)) ids := by
  have hmem : r ∈ xs := hperm.mem_iff.mp (List.mem_cons_self ..)
  have hrank := getElem?_rank hs hmem
  have hlt := rank_lt_length hs hmem
  have hnd := nodup_of_sorted hs
  have hlen : (xs.eraseIdx (rank xs r)).length + 1 = xs.length := by
    rw [List.length_eraseIdx_of_lt hlt]
    omega
  have hids : ids.Perm (xs.eraseIdx (rank xs r)) := by
    have h1 := List.getElem_cons_eraseIdx_perm hlt
    rw [show xs[rank xs r] = r by
      rw [List.getElem?_eq_getElem hlt] at hrank
      simpa using hrank] at h1
    exact List.Perm.cons_inv (hperm.trans h1.symm)
  have hne : ∀ i, i < ids.length → BinHeap.idAt ids i ≠ r := by
    intro i hi he
    have := (List.nodup_cons.mp (hperm.nodup_iff.mpr hnd)).1
    exact this (he ▸ BinHeap.idAt_mem hi)
  refine ⟨hinc, ⟨ps.eraseIdx (rank xs r), free + 1, ⟨⟨by rw [List.replicate_succ],
    pairwise_eraseIdx hs _, ?_⟩, ⟨_, rfl, by simp [hrd]⟩, ⟨_, rfl, by simp [hrp]⟩, ⟨_, rfl, hri⟩,
    ?_, ?_, hids.length_eq, ?_⟩, ?_⟩, hids⟩
  · intro x hx
    exact hsmall x (List.mem_of_mem_eraseIdx hx)
  · rw [List.length_eraseIdx_of_lt (by omega), List.length_eraseIdx_of_lt hlt, hdl]
  · rw [List.length_eraseIdx_of_lt (by omega), List.length_eraseIdx_of_lt hlt, hpl]
  · rw [hsize]
    omega
  · intro i hi
    rw [assoc_eraseIdx hpl hnd hrank, if_neg (hne i hi)]
    exact hpos i hi

/-- The heap after the last id replaced the root and sank. -/
def sunk (xs ds mid : List Int) (last : Int) : List Int :=
  BinHeap.siftDown (key xs ds) (mid.length + 2) (last :: mid) 0

/-- The first part of `getNext`: the last id replaces the root and sinks. -/
theorem sink_last (h : DistanceHeap) (restP restI : List Int) {xs ds ps restD mid : List Int}
    {free : Nat} {r last : Int} (hc : Padded h.containedIds xs free) (hd : h.distances = ds ++ restD)
    (hdl : ds.length = xs.length) (hpl : ps.length = xs.length)
    (hperm : (r :: (mid ++ [last])).Perm xs)
    (hpos : ∀ i, i < (r :: (mid ++ [last])).length →
      assoc xs ps (BinHeap.idAt (r :: (mid ++ [last])) i) = some (i : Int))
    (hsize : h.currentSize = (mid.length : Int) + 1) :
    ∃ ps', heapifyTopDown
        { h with
          heapPosition := ps.set (rank xs last) 0 ++ restP
          idHeapArray := (last :: mid) ++ last :: restI } h.currentSize 0
        = .ok { h with
            heapPosition := ps' ++ restP
            idHeapArray := sunk xs ds mid last ++ last :: restI } ∧
      ps'.length = xs.length ∧ (r :: sunk xs ds mid last).Perm xs ∧
      ∀ i, i < (sunk xs ds mid last).length →
        assoc xs ps' (BinHeap.idAt (sunk xs ds mid last) i) = some (i : Int) := by
  have hstart := sifting_replace_root h restP restI
    (hperm.nodup_iff.mpr (nodup_of_sorted hc.sorted)) (fun x hx => hperm.mem_iff.mp hx)
    hc.sorted hpl hpos
  have hfuel : h.currentSize.toNat = mid.length + 1 := by omega
  obtain ⟨h', hrun, hsift⟩ := BinHeap.heapifyTopDown_eq
    (sifts h restP (last :: restI) hc hd hdl)
    (mid.length + 2) _ (last :: mid) 0 (by simp) (by simp) hstart
  obtain ⟨ps', rfl, hpl', hpos'⟩ := hsift.frame
  refine ⟨ps', ?_, hpl', ?_, hpos'⟩
  · have hn : h.currentSize = ((last :: mid).length : Int) := by simp [hsize]
    rw [heapifyTopDown, hfuel]
    simp only [← hn] at hrun
    exact hrun
  · have hperm' := BinHeap.siftDown_perm (key xs ds) (mid.length + 2) (last :: mid) 0 (by simp)
    refine ((hperm'.cons r).trans ?_).trans hperm
    exact (List.perm_append_singleton last mid).symm.cons r

/-- The second part of `getNext`: the removed id leaves the sorted arrays. -/
theorem getNext_finish (h : DistanceHeap) (ids : List Int) {xs ds ps restD restP restI : List Int}
    {free : Nat} {r : Int} (hinc : 0 < h.sizeIncrease) (hc : Padded h.containedIds xs free)
    (hd : h.distances = ds ++ restD) (hp : h.heapPosition = ps ++ restP)
    (hi : h.idHeapArray = ids ++ restI) (hdl : ds.length = xs.length)
    (hpl : ps.length = xs.length) (hrd : restD.length = free) (hrp : restP.length = free)
    (hri : restI.length = free + 1) (hperm : (r :: ids).Perm xs)
    (hsize : h.currentSize = (xs.length : Int) - 1)
    (hpos : ∀ i, i < ids.length → assoc xs ps (BinHeap.idAt ids i) = some (i : Int)) :
    ∃ h₁ h₂, removeIdx h (encodeRank xs r) = .ok h₁ ∧
      ((do
        let containedIds ← wr h₁.containedIds h₁.currentSize MAX_VALUE
        return (r, { h₁ with containedIds := containedIds })) : Run (Int × DistanceHeap))
        = .ok (r, h₂) ∧
      Stores h₂ (xs.eraseIdx (rank xs r)) (ds.eraseIdx (rank xs r)) ids := by
  have hmem : r ∈ xs := hperm.mem_iff.mp (List.mem_cons_self ..)
  have hlt := rank_lt_length hc.sorted hmem
  obtain ⟨y₁, y₂, y₃, hrm⟩ := removeIdx_eq hc.eq hd hp hdl hpl hsize hlt
  have hlen : ((xs.eraseIdx (rank xs r)).length : Int) = h.currentSize := by
    rw [List.length_eraseIdx_of_lt hlt, hsize]
    omega
  refine ⟨_, { h with
      containedIds := xs.eraseIdx (rank xs r) ++ MAX_VALUE :: List.replicate free MAX_VALUE
      distances := ds.eraseIdx (rank xs r) ++ y₂ :: restD
      heapPosition := ps.eraseIdx (rank xs r) ++ y₃ :: restP
      idHeapArray := ids ++ restI }, by rw [encodeRank, if_pos hmem]; exact hrm, ?_,
    stores_erase hinc hc.sorted hc.small hdl hpl hrd hrp hri hperm hsize hpos⟩
  have hwr : wr (xs.eraseIdx (rank xs r) ++ y₁ :: List.replicate free MAX_VALUE) h.currentSize
      MAX_VALUE
      = .ok (xs.eraseIdx (rank xs r) ++ MAX_VALUE :: List.replicate free MAX_VALUE) := by
    rw [← hlen, wr_of_bounds _ (by omega) (by simp), Int.toNat_natCast]
    simp
  simp only [hwr, ok_bind, pure_eq_ok, hi]

/-- `getNext` takes the only id. -/
theorem Stores.getNext_last {h : DistanceHeap} {r : Int} (hh : Stores h xs ds [r]) :
    ∃ h', getNext h = .ok (r, h') ∧
      Stores h' (xs.eraseIdx (rank xs r)) (ds.eraseIdx (rank xs r)) [] := by
  obtain ⟨hinc, ⟨ps, free, hl, hpos⟩, hperm⟩ := hh
  obtain ⟨restD, hd, hrd⟩ := hl.dist
  obtain ⟨restP, hp, hrp⟩ := hl.pos
  obtain ⟨restI, hi, hri⟩ := hl.heap
  have hrmem : r ∈ xs := hperm.mem_iff.mp (List.mem_cons_self ..)
  have hsearch := binarySearch_padded hl.contained (hl.contained.small r hrmem)
  have hroot : rd h.idHeapArray 0 = .ok r := by rw [hi]; rfl
  have hcur : h.currentSize - 1 = 0 := by rw [hl.size, ← hl.heapLength]; simp
  obtain ⟨h₁, h₂, hrm, hwr, hstores⟩ := getNext_finish
    { h with
      currentSize := 0
      idHeapArray := r :: restI
      heapPosition := ps.set (rank xs r) 0 ++ restP }
    [] hinc hl.contained hd rfl rfl hl.distLength (by rw [List.length_set, hl.posLength])
    hrd hrp (by simp [hri]) hperm (by rw [← hl.heapLength]; rfl) (by simp)
  refine ⟨h₂, ?_, hstores⟩
  unfold getNext
  simp only [hroot, ok_bind, hsearch, hcur]
  rw [hi, hp, wr_of_bounds _ (by omega) (by simp)]
  simp only [ok_bind, wr_encodeRank hl.contained.sorted hl.posLength hrmem, heapifyTopDown,
    BinHeap.heapifyTopDown_empty]
  rw [show Int.toNat 0 = 0 from rfl, show ([r] ++ restI).set 0 r = r :: restI from rfl, hrm,
    ok_bind]
  exact hwr

/-- `getNext` takes the root, and the last id takes its place. -/
theorem Stores.getNext_sink {h : DistanceHeap} {r last : Int} {mid : List Int}
    (hh : Stores h xs ds (r :: (mid ++ [last]))) :
    ∃ h', getNext h = .ok (r, h') ∧
      Stores h' (xs.eraseIdx (rank xs r)) (ds.eraseIdx (rank xs r)) (sunk xs ds mid last) := by
  obtain ⟨hinc, ⟨ps, free, hl, hpos⟩, hperm⟩ := hh
  obtain ⟨restD, hd, hrd⟩ := hl.dist
  obtain ⟨restP, hp, hrp⟩ := hl.pos
  obtain ⟨restI, hi, hri⟩ := hl.heap
  have hs := hl.contained.sorted
  have hsearch : ∀ x ∈ xs, binarySearch h.containedIds x = .ok (encodeRank xs x) :=
    fun x hx => binarySearch_padded hl.contained (hl.contained.small x hx)
  have hrmem : r ∈ xs := hperm.mem_iff.mp (List.mem_cons_self ..)
  have hlast : last ∈ xs := hperm.mem_iff.mp (by simp)
  have hroot : rd h.idHeapArray 0 = .ok r := by rw [hi]; rfl
  have hcur : h.currentSize - 1 = (mid.length : Int) + 1 := by
    rw [hl.size, ← hl.heapLength]
    simp
  obtain ⟨ps', hsink, hpl', hperm', hpos'⟩ := sink_last
    { h with currentSize := h.currentSize - 1 } restP restI hl.contained hd hl.distLength
    hl.posLength hperm hpos hcur
  obtain ⟨h₁, h₂, hrm, hwr, hstores⟩ := getNext_finish
    { h with
      currentSize := h.currentSize - 1
      heapPosition := ps' ++ restP
      idHeapArray := sunk xs ds mid last ++ last :: restI }
    (sunk xs ds mid last) hinc hl.contained hd rfl rfl hl.distLength hpl' hrd hrp (by simp [hri])
    hperm' (by simp only [hl.size]) hpos'
  refine ⟨h₂, ?_, hstores⟩
  have hrdlast : rd h.idHeapArray (h.currentSize - 1) = .ok last := by
    rw [hcur, hi, rd_eq_ok]
    refine ⟨by omega, ?_⟩
    rw [show ((mid.length : Int) + 1).toNat = mid.length + 1 by omega]
    simp
  have hwrroot : wr h.idHeapArray 0 last = .ok ((last :: mid) ++ last :: restI) := by
    rw [hi, wr_of_bounds _ (by omega) (by simp; omega)]
    simp
  unfold getNext
  simp only [hroot, ok_bind, hsearch r hrmem, hrdlast, hwrroot, hsearch last hlast]
  rw [hp]
  simp only [wr_encodeRank hs hl.posLength hlast, ok_bind]
  rw [hsink, ok_bind, hrm, ok_bind]
  exact hwr

/-! ## The contracts of the operations -/

theorem new_holds (initialSize : Nat) {sizeIncrease : Nat} (h : 0 < sizeIncrease) :
    Holds (new initialSize sizeIncrease) (fun _ => none) :=
  holds_iff.mpr ⟨[], [], [], new_stores initialSize h, fun c _ hc => by simp at hc, rfl⟩

theorem reset_holds {h : DistanceHeap} {M : Int → Option Int} (hh : Holds h M) :
    Holds (reset h) (fun _ => none) := by
  obtain ⟨xs, ds, ids, hs, _⟩ := holds_iff.mp hh
  exact holds_iff.mpr ⟨[], [], [], hs.equal.reset_stores, fun c _ hc => by simp at hc, rfl⟩

theorem isEmpty_iff {h : DistanceHeap} {M : Int → Option Int} (hh : Holds h M) :
    isEmpty h = true ↔ ∀ x, M x = none := by
  obtain ⟨xs, ds, ids, hs, _, rfl⟩ := holds_iff.mp hh
  rw [hs.isEmpty_eq, List.isEmpty_iff]
  constructor
  · intro h0 x
    have hnil : xs = [] := List.Perm.nil_eq (h0 ▸ hs.perm) ▸ rfl
    rw [hnil]
    rfl
  · intro hnone
    cases ids with
    | nil => rfl
    | cons r tail =>
      have hmem : r ∈ xs := hs.perm.mem_iff.mp List.mem_cons_self
      obtain ⟨v, hv⟩ := exists_assoc_of_mem hs.distLength hmem
      rw [hnone r] at hv
      simp at hv

/-- `add` of an id that the heap contains, with a distance that is not larger
than the stored one. -/
theorem add_update_spec {h : DistanceHeap} {M : Int → Option Int} (hh : Holds h M)
    {id d d₀ : Int} (hid : M id = some d₀) (hle : d ≤ d₀) :
    ∃ h', add h id d = .ok h' ∧ Holds h' (fun x => if x = id then some d else M x) := by
  obtain ⟨xs, ds, ids, hs, hheap, rfl⟩ := holds_iff.mp hh
  have hmem := mem_of_assoc hid
  obtain ⟨i, hi, rfl⟩ := BinHeap.exists_idAt_of_mem (hs.perm.mem_iff.mpr hmem)
  have hkey := key_set_rank hs.sorted hs.distLength hmem d
  have hup : BinHeap.UpInv (key xs (ds.set (rank xs (BinHeap.idAt ids i)) d)) ids i := by
    apply hheap.upInv_of_key_le
    · rw [hkey, if_pos rfl, key, hid]
      exact hle
    · intro c hc hci
      rw [hkey, if_neg]
      intro he
      rw [BinHeap.idAt_eq_getElem hc, BinHeap.idAt_eq_getElem hi, hs.nodup.getElem_inj_iff] at he
      exact hci he
  obtain ⟨h', hrun, hs'⟩ := hs.add_update hi d
  refine ⟨h', hrun, holds_iff.mpr ⟨_, _, _, hs', ?_, ?_⟩⟩
  · exact BinHeap.siftUp_isHeap (i + 1) ids i (Nat.lt_succ_self i) hi hup
  · funext x
    rw [assoc_set_rank hs.sorted hs.distLength hmem]

/-- `add` of an id that the heap does not contain. -/
theorem add_insert_spec {h : DistanceHeap} {M : Int → Option Int} (hh : Holds h M)
    {id d : Int} (hmax : id < MAX_VALUE) (hid : M id = none) :
    ∃ h', add h id d = .ok h' ∧ Holds h' (fun x => if x = id then some d else M x) := by
  obtain ⟨xs, ds, ids, hs, hheap, rfl⟩ := holds_iff.mp hh
  have hnot : id ∉ xs := by
    intro hmem
    obtain ⟨v, hv⟩ := exists_assoc_of_mem hs.distLength hmem
    rw [hid] at hv
    simp at hv
  have hkey := key_insertIdx_rank hs.distLength hnot d
  have hheapKey : BinHeap.IsHeap
      (key (xs.insertIdx (rank xs id) id) (ds.insertIdx (rank xs id) d)) ids := by
    intro c hc hcl
    have hne : ∀ m, m < ids.length → BinHeap.idAt ids m ≠ id := fun m hm he =>
      hnot (hs.perm.mem_iff.mp (he ▸ BinHeap.idAt_mem hm))
    rw [hkey, hkey, if_neg (hne _ (by omega)), if_neg (hne _ hcl)]
    exact hheap c hc hcl
  obtain ⟨h', hrun, hs'⟩ := hs.add_insert hmax hnot d
  refine ⟨h', hrun, holds_iff.mpr ⟨_, _, _, hs', ?_, ?_⟩⟩
  · exact BinHeap.siftUp_isHeap (ids.length + 1) (ids ++ [id]) ids.length (Nat.lt_succ_self _)
      (by simp) (hheapKey.upInv_append id)
  · funext x
    rw [assoc_insertIdx_rank hs.distLength hnot]

/-- `add` sets the distance of an id, as long as it does not raise it. -/
theorem add_spec {h : DistanceHeap} {M : Int → Option Int} (hh : Holds h M) {id d : Int}
    (hmax : id < MAX_VALUE) (hle : ∀ d₀, M id = some d₀ → d ≤ d₀) :
    ∃ h', add h id d = .ok h' ∧ Holds h' (fun x => if x = id then some d else M x) := by
  cases hid : M id with
  | none => exact add_insert_spec hh hmax hid
  | some d₀ => exact add_update_spec hh hid (hle d₀ hid)

/-- What is left after the id `r` was taken out. -/
theorem holds_of_stores_erase {h : DistanceHeap} {ids : List Int} {r : Int}
    (hs : xs.Pairwise (· < ·)) (hdl : ds.length = xs.length) (hmem : r ∈ xs)
    (hstores : Stores h (xs.eraseIdx (rank xs r)) (ds.eraseIdx (rank xs r)) ids)
    (hheap : BinHeap.IsHeap (key xs ds) ids) :
    Holds h (fun x => if x = r then none else assoc xs ds x) := by
  have hnd := nodup_of_sorted hs
  have hrank := getElem?_rank hs hmem
  have hne : ∀ i, i < ids.length → BinHeap.idAt ids i ≠ r := by
    intro i hi he
    have hin := hstores.perm.mem_iff.mp (BinHeap.idAt_mem hi)
    rw [he] at hin
    obtain ⟨v, hv⟩ := exists_assoc_of_mem hstores.distLength hin
    rw [assoc_eraseIdx hdl hnd hrank, if_pos rfl] at hv
    simp at hv
  have hkey : ∀ i, i < ids.length →
      key (xs.eraseIdx (rank xs r)) (ds.eraseIdx (rank xs r)) (BinHeap.idAt ids i)
        = key xs ds (BinHeap.idAt ids i) := by
    intro i hi
    rw [key, assoc_eraseIdx hdl hnd hrank, if_neg (hne i hi)]
    rfl
  refine holds_iff.mpr ⟨_, _, _, hstores, ?_, ?_⟩
  · intro c hc hcl
    rw [hkey c hcl, hkey _ (by omega)]
    exact hheap c hc hcl
  · funext x
    rw [assoc_eraseIdx hdl hnd hrank]

/-- `getNext` takes an id of smallest distance out of a heap that is not empty. -/
theorem getNext_spec {h : DistanceHeap} {M : Int → Option Int} (hh : Holds h M)
    (hne : isEmpty h = false) :
    ∃ id d h', getNext h = .ok (id, h') ∧ M id = some d ∧
      (∀ x b, M x = some b → d ≤ b) ∧ Holds h' (fun x => if x = id then none else M x) := by
  obtain ⟨xs, ds, ids, hs, hheap, rfl⟩ := holds_iff.mp hh
  cases ids with
  | nil =>
    rw [hs.isEmpty_eq] at hne
    simp at hne
  | cons r tail =>
    have hrmem : r ∈ xs := hs.perm.mem_iff.mp List.mem_cons_self
    obtain ⟨d, hdr⟩ := exists_assoc_of_mem hs.distLength hrmem
    have hmin : ∀ x b, assoc xs ds x = some b → d ≤ b := by
      intro x b hb
      have hle := hheap.root_le_of_mem (hs.perm.mem_iff.mpr (mem_of_assoc hb))
      rw [show BinHeap.idAt (r :: tail) 0 = r from rfl, key, key, hdr, hb] at hle
      exact hle
    rcases List.eq_nil_or_concat' tail with rfl | ⟨mid, last, rfl⟩
    · obtain ⟨h', hrun, hs'⟩ := hs.getNext_last
      exact ⟨r, d, h', hrun, hdr, hmin, holds_of_stores_erase hs.sorted hs.distLength hrmem hs'
        (fun c _ hc => by simp at hc)⟩
    · obtain ⟨h', hrun, hs'⟩ := hs.getNext_sink
      have hdown : BinHeap.DownInv (key xs ds) (last :: mid) 0 := by
        have h1 := hheap.downInv_replace_root (x := last) (by simp)
        have h2 : ((r :: (mid ++ [last])).set 0 last).dropLast = last :: mid := by
          rw [List.set_cons_zero, ← List.cons_append, List.dropLast_concat]
        rwa [h2] at h1
      exact ⟨r, d, h', hrun, hdr, hmin, holds_of_stores_erase hs.sorted hs.distLength hrmem hs'
        (BinHeap.siftDown_isHeap (mid.length + 2) (last :: mid) 0 (by simp) (by simp) hdown)⟩

/-! ## Runs -/

/-- A heap that was created with the given sizes and then used, with the map from its
ids to the distances that were added last.  `add` does not raise a distance, and
`getNext` is not called on an empty heap. -/
inductive Reached (initialSize sizeIncrease : Nat) : DistanceHeap → (Int → Option Int) → Prop
  | start : Reached initialSize sizeIncrease (new initialSize sizeIncrease) (fun _ => none)
  | reset {h : DistanceHeap} {M : Int → Option Int} : Reached initialSize sizeIncrease h M →
      Reached initialSize sizeIncrease (reset h) (fun _ => none)
  | add {h h' : DistanceHeap} {M : Int → Option Int} {id d : Int} :
      Reached initialSize sizeIncrease h M → id < MAX_VALUE → (∀ d₀, M id = some d₀ → d ≤ d₀) →
      add h id d = .ok h' →
      Reached initialSize sizeIncrease h' (fun x => if x = id then some d else M x)
  | getNext {h h' : DistanceHeap} {M : Int → Option Int} {id : Int} :
      Reached initialSize sizeIncrease h M → isEmpty h = false → getNext h = .ok (id, h') →
      Reached initialSize sizeIncrease h' (fun x => if x = id then none else M x)

/-- What a caller sees of the heap is the map `M`, and its arrays hold each id once. -/
structure BehavesAs (h : DistanceHeap) (M : Int → Option Int) : Prop where
  isEmpty_iff : isEmpty h = true ↔ ∀ x, M x = none
  add : ∀ id d, id < MAX_VALUE → (∀ d₀, M id = some d₀ → d ≤ d₀) → ∃ h', add h id d = .ok h'
  getNext : isEmpty h = false → ∃ id d h', getNext h = .ok (id, h') ∧ M id = some d ∧
    ∀ x b, M x = some b → d ≤ b
  arrays : ∃ xs ds ids, slice h.containedIds 0 h.currentSize = .ok xs ∧
    slice h.distances 0 h.currentSize = .ok ds ∧ slice h.idHeapArray 0 h.currentSize = .ok ids ∧
    xs.Nodup ∧ ids.Perm xs ∧ ds.length = xs.length ∧ (∀ x, x ∈ xs ↔ (M x).isSome) ∧
    ∀ (i : Nat) x d, xs[i]? = some x → ds[i]? = some d → M x = some d

theorem Reached.holds {initialSize sizeIncrease : Nat} {h : DistanceHeap} {M : Int → Option Int}
    (hr : Reached initialSize sizeIncrease h M) (hinc : 0 < sizeIncrease) : Holds h M := by
  induction hr with
  | start => exact new_holds initialSize hinc
  | reset _ ih => exact reset_holds ih
  | add _ hmax hle hrun ih =>
    obtain ⟨h', hrun', hh'⟩ := add_spec ih hmax hle
    rw [hrun, Except.ok.injEq] at hrun'
    rw [hrun']
    exact hh'
  | getNext _ hne hrun ih =>
    obtain ⟨id', _, h', hrun', _, _, hh'⟩ := getNext_spec ih hne
    rw [hrun, Except.ok.injEq, Prod.mk.injEq] at hrun'
    rw [hrun'.1, hrun'.2]
    exact hh'

theorem Holds.arrays {h : DistanceHeap} {M : Int → Option Int} (hh : Holds h M) :
    ∃ xs ds ids, slice h.containedIds 0 h.currentSize = .ok xs ∧
      slice h.distances 0 h.currentSize = .ok ds ∧ slice h.idHeapArray 0 h.currentSize = .ok ids ∧
      xs.Nodup ∧ ids.Perm xs ∧ ds.length = xs.length ∧ (∀ x, x ∈ xs ↔ (M x).isSome) ∧
      ∀ (i : Nat) x d, xs[i]? = some x → ds[i]? = some d → M x = some d := by
  obtain ⟨_, xs, ds, ps, ids, free, hl, hperm, _, _, rfl⟩ := hh
  obtain ⟨restD, hd, _⟩ := hl.dist
  obtain ⟨restI, hi, _⟩ := hl.heap
  refine ⟨xs, ds, ids, ?_, ?_, ?_, nodup_of_sorted hl.contained.sorted, hperm, hl.distLength, ?_,
    ?_⟩
  · rw [hl.contained.eq, hl.size]
    exact slice_append
  · rw [hd, hl.size, ← hl.distLength]
    exact slice_append
  · rw [hi, hl.size, ← hl.heapLength]
    exact slice_append
  · intro x
    constructor
    · intro hx
      obtain ⟨v, hv⟩ := exists_assoc_of_mem hl.distLength hx
      rw [hv]
      rfl
    · intro hx
      obtain ⟨v, hv⟩ := Option.isSome_iff_exists.mp hx
      exact mem_of_assoc hv
  · intro i x d hx hd
    rw [assoc_of_getElem? (nodup_of_sorted hl.contained.sorted) hx, hd]

/-- In every run the heap behaves as the map. -/
theorem behavesAs_of_reached {initialSize sizeIncrease : Nat} {h : DistanceHeap}
    {M : Int → Option Int} (hr : Reached initialSize sizeIncrease h M) (hinc : 0 < sizeIncrease) :
    BehavesAs h M := by
  have hh := hr.holds hinc
  refine ⟨DistanceHeap.isEmpty_iff hh, ?_, ?_, hh.arrays⟩
  · intro id d hmax hle
    obtain ⟨h', hrun, _⟩ := add_spec hh hmax hle
    exact ⟨h', hrun⟩
  · intro hne
    obtain ⟨id, d, h', hrun, hid, hmin, _⟩ := getNext_spec hh hne
    exact ⟨id, d, h', hrun, hid, hmin⟩

/-- Two ids in a heap that grows; the distance of the id 3 is lowered, then it is removed. -/
theorem behavesAs_of_reached_lowered : ∃ h₁ h₂ h₃ h₄ : DistanceHeap,
    add (new 1 1) 7 4 = .ok h₁ ∧ add h₁ 3 5 = .ok h₂ ∧ add h₂ 3 2 = .ok h₃ ∧
      getNext h₃ = .ok (3, h₄) ∧
      BehavesAs h₄ (fun x => if x = 3 then none else if x = 3 then some 2
        else if x = 3 then some 5 else if x = 7 then some 4 else none) := by
  obtain ⟨⟨v, h₄⟩, hrun, hv⟩ := exists_of_map_toOption (p := fun r => r.1 = 3)
    (x := do
      let h₁ ← add (new 1 1) 7 4
      let h₂ ← add h₁ 3 5
      let h₃ ← add h₂ 3 2
      getNext h₃) (by decide +kernel)
  simp only [bind_eq_ok] at hrun
  obtain ⟨h₁, hrun₁, h₂, hrun₂, h₃, hrun₃, hrun₄⟩ := hrun
  obtain rfl : v = 3 := of_decide_eq_true hv
  have hr₁ : Reached 1 1 h₁ _ := Reached.start.add (d := 4) (by decide) (by simp) hrun₁
  have hr₂ := hr₁.add (d := 5) (show (3 : Int) < MAX_VALUE by decide) (by simp) hrun₂
  have hr₃ := hr₂.add (d := 2) (show (3 : Int) < MAX_VALUE by decide) (by simp) hrun₃
  have hne : isEmpty h₃ = false := by
    apply Bool.eq_false_iff.mpr
    intro hempty
    have hnone := (DistanceHeap.isEmpty_iff (hr₃.holds (by decide))).mp hempty 7
    simp at hnone
  exact ⟨h₁, h₂, h₃, h₄, hrun₁, hrun₂, hrun₃, hrun₄,
    behavesAs_of_reached (hr₃.getNext hne hrun₄) (by decide)⟩

end DistanceHeap

end SeaRouter
