import SeaRouter.Lib.BinHeap

/-!
# `router/DijkstraHeap.java`

The heap of the Dijkstra router orders node ids by the distances that the
router keeps in `currDistanceToNode`; an operation that compares ids therefore
takes that array as an argument.  The router lowers a distance first and calls
`add` afterwards.

`Holds dist h Q F` says that `h` contains the nodes of `Q`, ordered by `dist`,
and that the nodes of `F` were never added.  A node that `getNext` removed is
in neither of the two: its position is stale, and nothing is promised about an
`add` of it.
-/

namespace SeaRouter

open Java

/-- The fields of `DijkstraHeap`. -/
structure DijkstraHeap where
  heapPosition : List Int
  idHeapArray : List Int
  currentSize : Int
deriving DecidableEq, Repr

namespace DijkstraHeap

def INITIAL_SIZE : Nat := 400

def SIZE_INCREASE : Int := 200

/-- `DijkstraHeap(router)`. -/
def new (nodeCount : Nat) : DijkstraHeap where
  heapPosition := List.replicate nodeCount 0
  idHeapArray := List.replicate INITIAL_SIZE (-1)
  currentSize := 0

def resetState (h : DijkstraHeap) : DijkstraHeap where
  heapPosition := List.replicate h.heapPosition.length (-1)
  idHeapArray := List.replicate INITIAL_SIZE (-1)
  currentSize := 0

def isEmpty (h : DijkstraHeap) : Bool := h.currentSize == 0

def grow (h : DijkstraHeap) : DijkstraHeap :=
  { h with idHeapArray := growBy h.idHeapArray SIZE_INCREASE (-1) }

def compareValues (currDistanceToNode : List Int) (h : DijkstraHeap) (firstID secondID : Int) :
    Run Int := do
  let d1 ← rd currDistanceToNode (← rd h.idHeapArray firstID)
  let d2 ← rd currDistanceToNode (← rd h.idHeapArray secondID)
  if d1 = d2 then return 0 else if d2 < d1 then return 1 else return -1

def swap (h : DijkstraHeap) (i j : Int) : Run DijkstraHeap := do
  let tmp ← rd h.idHeapArray i
  let idJ ← rd h.idHeapArray j
  let ids ← wr h.idHeapArray i idJ
  let ids ← wr ids j tmp
  -- also update positions in heap information
  let newI ← rd ids i
  let newJ ← rd ids j
  let tmp ← rd h.heapPosition newI
  let posJ ← rd h.heapPosition newJ
  let pos ← wr h.heapPosition newI posJ
  let pos ← wr pos newJ tmp
  return { h with idHeapArray := ids, heapPosition := pos }

def heapifyTopDown (currDistanceToNode : List Int) (h : DijkstraHeap) (n root : Int) :
    Run DijkstraHeap :=
  BinHeap.heapifyTopDown (compareValues currDistanceToNode) swap (n.toNat + 1) h n root

def heapifyBottomUp (currDistanceToNode : List Int) (h : DijkstraHeap) (nodeID : Int) :
    Run DijkstraHeap :=
  BinHeap.heapifyBottomUp (compareValues currDistanceToNode) swap (nodeID.toNat + 1) h nodeID

def getNext (currDistanceToNode : List Int) (h : DijkstraHeap) : Run (Int × DijkstraHeap) := do
  let returnValue ← rd h.idHeapArray 0
  let currentSize := h.currentSize - 1
  let last ← rd h.idHeapArray currentSize
  let idHeapArray ← wr h.idHeapArray 0 last
  let heapPosition ← wr h.heapPosition last 0
  let idHeapArray ← wr idHeapArray currentSize (-1)
  let h ← heapifyTopDown currDistanceToNode
    { heapPosition := heapPosition, idHeapArray := idHeapArray, currentSize := currentSize }
    currentSize 0
  return (returnValue, h)

/-- `grow()` if the array is full. -/
def growIfFull (h : DijkstraHeap) : DijkstraHeap :=
  if h.currentSize = h.idHeapArray.length then grow h else h

def add (currDistanceToNode : List Int) (h : DijkstraHeap) (id : Int) : Run DijkstraHeap := do
  let position ← rd h.heapPosition id
  if position ≠ -1 then
    -- update, do not add again
    heapifyBottomUp currDistanceToNode h position
  else
    let h := growIfFull h
    let idHeapArray ← wr h.idHeapArray h.currentSize id
    let heapPosition ← wr h.heapPosition id h.currentSize
    let h ← heapifyBottomUp currDistanceToNode
      { h with idHeapArray := idHeapArray, heapPosition := heapPosition } h.currentSize
    return { h with currentSize := h.currentSize + 1 }

/-! ## The length of the position array -/

theorem swap_length {h h' : DijkstraHeap} {i j : Int} (hrun : swap h i j = .ok h') :
    h'.heapPosition.length = h.heapPosition.length := by
  unfold swap at hrun
  simp only [bind_eq_ok, pure_eq_ok, Except.ok.injEq] at hrun
  obtain ⟨_, _, _, _, _, _, ids, _, _, _, _, _, _, _, _, _, pos, hpos, pos', hpos', rfl⟩ := hrun
  rw [length_of_wr hpos', length_of_wr hpos]

theorem getNext_length {dist : List Int} {h h' : DijkstraHeap} {id : Int}
    (hrun : getNext dist h = .ok (id, h')) : h'.heapPosition.length = h.heapPosition.length := by
  unfold getNext at hrun
  simp only [bind_eq_ok, pure_eq_ok, Except.ok.injEq, Prod.mk.injEq] at hrun
  obtain ⟨_, _, _, _, _, _, pos, hpos, _, _, g, hg, _, rfl⟩ := hrun
  have hsift := BinHeap.heapifyTopDown_inv
    (P := fun g : DijkstraHeap => g.heapPosition.length = h.heapPosition.length)
    (fun g i j g' hg hswap => (swap_length hswap).trans hg) _ _ _ _ _ (length_of_wr hpos) hg
  exact hsift

theorem growIfFull_heapPosition (h : DijkstraHeap) :
    (growIfFull h).heapPosition = h.heapPosition := by
  unfold growIfFull
  split_ifs <;> rfl

theorem add_length {dist : List Int} {h h' : DijkstraHeap} {id : Int}
    (hrun : add dist h id = .ok h') : h'.heapPosition.length = h.heapPosition.length := by
  have hsift : ∀ (h₀ g : DijkstraHeap) (i : Int),
      h₀.heapPosition.length = h.heapPosition.length → heapifyBottomUp dist h₀ i = .ok g →
      g.heapPosition.length = h.heapPosition.length := by
    intro h₀ g i h0 hg
    exact BinHeap.heapifyBottomUp_inv
      (P := fun g : DijkstraHeap => g.heapPosition.length = h.heapPosition.length)
      (fun g i j g' hg hswap => (swap_length hswap).trans hg) _ _ _ _ h0 hg
  unfold add at hrun
  rw [bind_eq_ok] at hrun
  obtain ⟨position, _, hrun⟩ := hrun
  split_ifs at hrun with hpos
  · exact hsift h h' position rfl hrun
  · simp only [bind_eq_ok, pure_eq_ok, Except.ok.injEq] at hrun
    obtain ⟨ids, _, pos, hwr, g, hg, rfl⟩ := hrun
    apply hsift _ g _ _ hg
    simp only
    rw [length_of_wr hwr, growIfFull_heapPosition]

/-! ## What the heap holds -/

/-- The distance by which the heap is ordered. -/
def key (dist : List Int) (x : Int) : Int := dist.getD x.toNat 0

theorem rd_dist {dist : List Int} {x : Int} (h0 : 0 ≤ x) (h1 : x < dist.length) :
    rd dist x = .ok (key dist x) := by
  rw [rd_eq_ok]
  refine ⟨h0, ?_⟩
  simp [key, show x.toNat < dist.length by omega]

theorem key_set {dist : List Int} {id d : Int} (h0 : 0 ≤ id) (h1 : id < dist.length) {x : Int}
    (hx : 0 ≤ x) : key (dist.set id.toNat d) x = if x = id then d else key dist x := by
  unfold key
  simp only [List.getD_eq_getElem?_getD]
  by_cases hxi : x = id
  · subst hxi
    rw [if_pos rfl, List.getElem?_set_self (by omega)]
    rfl
  · rw [if_neg hxi, List.getElem?_set_ne (by omega)]

/-- The heap array holds `ids`, and each of them knows its position. -/
structure Layout (size : Nat) (h : DijkstraHeap) (ids rest : List Int) : Prop where
  heap : h.idHeapArray = ids ++ rest
  posLength : h.heapPosition.length = size
  nodup : ids.Nodup
  range : ∀ x ∈ ids, 0 ≤ x ∧ x < size
  pos : ∀ i, i < ids.length → rd h.heapPosition (BinHeap.idAt ids i) = .ok (i : Int)

/-- The heap contains the nodes of `Q`; those of `F` were never added. -/
def Holds (dist : List Int) (h : DijkstraHeap) (Q F : Int → Prop) : Prop :=
  ∃ ids rest, Layout dist.length h ids rest ∧ h.currentSize = ids.length ∧
    (∀ x, Q x ↔ x ∈ ids) ∧ (∀ x, F x → rd h.heapPosition x = .ok (-1)) ∧
    BinHeap.IsHeap (key dist) ids

/-- What a sift keeps. -/
structure Sifting (size : Nat) (base : DijkstraHeap) (rest : List Int) (h : DijkstraHeap)
    (ids : List Int) : Prop where
  layout : Layout size h ids rest
  size : h.currentSize = base.currentSize
  outside : ∀ x, x ∉ ids → rd h.heapPosition x = rd base.heapPosition x

theorem Layout.rd_ids {size : Nat} {h : DijkstraHeap} {ids rest : List Int}
    (hl : Layout size h ids rest) {i : Nat} (hi : i < ids.length) :
    rd h.idHeapArray (i : Int) = .ok (BinHeap.idAt ids i) := by
  rw [hl.heap, rd_append_left (by omega)]
  refine rd_of_getElem? ?_
  rw [BinHeap.idAt_eq_getElem hi, List.getElem?_eq_getElem hi]

theorem swap_spec {size : Nat} {h : DijkstraHeap} {ids rest : List Int}
    (hl : Layout size h ids rest) {i j : Nat} (hi : i < ids.length) (hj : j < ids.length)
    (hij : i ≠ j) :
    ∃ h', swap h i j = .ok h' ∧ Layout size h' (BinHeap.swapAt ids i j) rest ∧
      h'.currentSize = h.currentSize ∧
      ∀ x, x ∉ ids → rd h'.heapPosition x = rd h.heapPosition x := by
  have hinj : ∀ m k, m < ids.length → k < ids.length →
      (BinHeap.idAt ids m = BinHeap.idAt ids k ↔ m = k) := by
    intro m k hm hk
    rw [BinHeap.idAt_eq_getElem hm, BinHeap.idAt_eq_getElem hk, hl.nodup.getElem_inj_iff]
  have hri := hl.range _ (BinHeap.idAt_mem hi)
  have hrj := hl.range _ (BinHeap.idAt_mem hj)
  have hpl := hl.posLength
  have hlen : h.idHeapArray.length = ids.length + rest.length := by rw [hl.heap]; simp
  have hids : (h.idHeapArray.set i (BinHeap.idAt ids j)).set j (BinHeap.idAt ids i)
      = BinHeap.swapAt ids i j ++ rest := by
    rw [hl.heap, List.set_append_left _ _ hi,
      List.set_append_left _ _ (by rw [List.length_set]; exact hj)]
    rfl
  have hnew : ∀ m, m < ids.length → rd (BinHeap.swapAt ids i j ++ rest) (m : Int)
      = .ok (BinHeap.idAt (BinHeap.swapAt ids i j) m) := by
    intro m hm
    rw [rd_append_left (by rw [BinHeap.swapAt_length]; omega)]
    refine rd_of_getElem? ?_
    have hm' : m < (BinHeap.swapAt ids i j).length := by rw [BinHeap.swapAt_length]; exact hm
    rw [BinHeap.idAt_eq_getElem hm', List.getElem?_eq_getElem hm']
  have hnewI : BinHeap.idAt (BinHeap.swapAt ids i j) i = BinHeap.idAt ids j := by
    rw [BinHeap.idAt_swapAt hi hj, if_pos rfl]
  have hnewJ : BinHeap.idAt (BinHeap.swapAt ids i j) j = BinHeap.idAt ids i := by
    rw [BinHeap.idAt_swapAt hi hj, if_neg (by omega), if_pos rfl]
  have hpos : ∀ x, rd ((h.heapPosition.set (BinHeap.idAt ids j).toNat (i : Int)).set
      (BinHeap.idAt ids i).toNat (j : Int)) x
      = if x = BinHeap.idAt ids i then .ok (j : Int)
        else if x = BinHeap.idAt ids j then .ok (i : Int) else rd h.heapPosition x := by
    intro x
    rw [rd_set hri.1 (by rw [List.length_set]; omega), rd_set hrj.1 (by omega)]
  refine ⟨{ h with
      idHeapArray := BinHeap.swapAt ids i j ++ rest
      heapPosition := (h.heapPosition.set (BinHeap.idAt ids j).toNat (i : Int)).set
        (BinHeap.idAt ids i).toNat (j : Int) }, ?_, ?_, rfl, ?_⟩
  · unfold swap
    simp only [hl.rd_ids hi, hl.rd_ids hj, ok_bind]
    rw [wr_of_bounds _ (by omega) (by omega), ok_bind,
      wr_of_bounds _ (by omega) (by rw [List.length_set]; omega), ok_bind, Int.toNat_natCast,
      Int.toNat_natCast, hids]
    simp only [hnew i hi, hnew j hj, hnewI, hnewJ, ok_bind, hl.pos i hi, hl.pos j hj]
    rw [wr_of_bounds _ hrj.1 (by omega), ok_bind,
      wr_of_bounds _ hri.1 (by rw [List.length_set]; omega), ok_bind]
    rfl
  · refine ⟨rfl, by simp [hpl], ?_, ?_, ?_⟩
    · exact (BinHeap.swapAt_perm hi hj).nodup_iff.mpr hl.nodup
    · intro x hx
      exact hl.range x ((BinHeap.swapAt_perm hi hj).mem_iff.mp hx)
    · intro m hm
      rw [BinHeap.swapAt_length] at hm
      rw [hpos, BinHeap.idAt_swapAt hi hj]
      by_cases hmi : m = i
      · rw [if_pos hmi, if_neg (by rw [hinj j i hj hi]; omega), if_pos rfl, hmi]
      · by_cases hmj : m = j
        · rw [if_neg hmi, if_pos hmj, if_pos rfl, hmj]
        · rw [if_neg hmi, if_neg hmj, if_neg (by rw [hinj m i hm hi]; exact hmi),
            if_neg (by rw [hinj m j hm hj]; exact hmj)]
          exact hl.pos m hm
  · intro x hx
    rw [hpos, if_neg (by rintro rfl; exact hx (BinHeap.idAt_mem hi)),
      if_neg (by rintro rfl; exact hx (BinHeap.idAt_mem hj))]

/-- The sifts of this heap. -/
theorem sifts (dist : List Int) (base : DijkstraHeap) (rest : List Int) :
    BinHeap.Sifts (key dist) (Sifting dist.length base rest) (compareValues dist) swap where
  compare := by
    intro h ids i j hs hi hj
    have hri := hs.layout.range _ (BinHeap.idAt_mem hi)
    have hrj := hs.layout.range _ (BinHeap.idAt_mem hj)
    unfold compareValues
    simp only [hs.layout.rd_ids hi, hs.layout.rd_ids hj, ok_bind, rd_dist hri.1 hri.2,
      rd_dist hrj.1 hrj.2]
    split_ifs <;> rfl
  exchange := by
    intro h ids i j hs hi hj hij
    obtain ⟨h', hsw, hl, hsize, hout⟩ := swap_spec hs.layout hi hj hij
    refine ⟨h', hsw, hl, hsize.trans hs.size, ?_⟩
    intro x hx
    have hx' : x ∉ ids := fun h => hx ((BinHeap.swapAt_perm hi hj).mem_iff.mpr h)
    rw [hout x hx', hs.outside x hx']

/-! ## The contracts of the operations -/

theorem resetState_holds (dist : List Int) {h : DijkstraHeap}
    (hlen : h.heapPosition.length = dist.length) :
    Holds dist (resetState h) (fun _ => False) (fun x => 0 ≤ x ∧ x < dist.length) := by
  refine ⟨[], List.replicate INITIAL_SIZE (-1), ⟨rfl, by simp [resetState, hlen], by simp,
    by simp, by simp⟩, rfl, by simp, ?_, ?_⟩
  · rintro x ⟨h0, h1⟩
    rw [rd_eq_ok]
    refine ⟨h0, ?_⟩
    simp only [resetState]
    rw [List.getElem?_replicate, if_pos (by omega)]
  · intro c _ hc
    simp at hc

theorem isEmpty_iff {dist : List Int} {h : DijkstraHeap} {Q F : Int → Prop}
    (hh : Holds dist h Q F) : isEmpty h = true ↔ ∀ x, ¬ Q x := by
  obtain ⟨ids, rest, _, hsize, hQ, _⟩ := hh
  rw [isEmpty, beq_iff_eq, hsize]
  constructor
  · intro h0 x hx
    obtain rfl : ids = [] := List.eq_nil_of_length_eq_zero (by omega)
    simpa using (hQ x).mp hx
  · intro hnone
    cases ids with
    | nil => rfl
    | cons x xs => exact absurd ((hQ x).mpr (List.mem_cons_self ..)) (hnone x)

theorem disjoint_of_holds {dist : List Int} {h : DijkstraHeap} {Q F : Int → Prop}
    (hh : Holds dist h Q F) (x : Int) (hQ : Q x) : ¬ F x := by
  obtain ⟨ids, rest, hl, _, hids, hF, _⟩ := hh
  intro hx
  obtain ⟨i, hi, rfl⟩ := BinHeap.exists_idAt_of_mem ((hids x).mp hQ)
  have h1 := hF _ hx
  rw [hl.pos i hi, Except.ok.injEq] at h1
  omega

/-- `add` of a node that the heap contains, after its distance was lowered. -/
theorem add_update_spec {dist : List Int} {h : DijkstraHeap} {Q F : Int → Prop}
    (hh : Holds dist h Q F) {id d : Int} (hid : Q id) (hle : d ≤ key dist id) :
    ∃ h', add (dist.set id.toNat d) h id = .ok h' ∧ Holds (dist.set id.toNat d) h' Q F := by
  have hdisj := disjoint_of_holds hh
  obtain ⟨ids, rest, hl, hsize, hQ, hF, hheap⟩ := hh
  have hmem := (hQ id).mp hid
  have hr := hl.range id hmem
  obtain ⟨i, hi, hiid⟩ := BinHeap.exists_idAt_of_mem hmem
  have hup : BinHeap.UpInv (key (dist.set id.toNat d)) ids i := by
    refine hheap.upInv_of_key_le ?_ ?_
    · rw [hiid, key_set hr.1 hr.2 hr.1, if_pos rfl]
      exact hle
    · intro c hc hci
      rw [key_set hr.1 hr.2 (hl.range _ (BinHeap.idAt_mem hc)).1, if_neg]
      rw [← hiid, BinHeap.idAt_eq_getElem hc, BinHeap.idAt_eq_getElem hi,
        hl.nodup.getElem_inj_iff]
      exact hci
  have hstart : Sifting (dist.set id.toNat d).length h rest h ids := by
    refine ⟨?_, rfl, fun _ _ => rfl⟩
    rw [List.length_set]
    exact hl
  obtain ⟨h', ids', hrun, hsift, hperm, hheap'⟩ := BinHeap.heapifyBottomUp_spec
    (sifts (dist.set id.toNat d) h rest) (i + 1) h ids i (Nat.lt_succ_self i) hi hstart hup
  refine ⟨h', ?_, ids', rest, hsift.layout, ?_, ?_, ?_, hheap'⟩
  · have hpos := hl.pos i hi
    rw [hiid] at hpos
    unfold add
    rw [hpos, ok_bind, if_pos (by omega), heapifyBottomUp, Int.toNat_natCast, hrun]
  · rw [hsift.size, hsize, hperm.length_eq]
  · intro x
    rw [hQ, hperm.mem_iff]
  · intro x hx
    rw [hsift.outside x (fun hx' => hdisj x ((hQ x).mpr (hperm.mem_iff.mp hx')) hx)]
    exact hF x hx

theorem growIfFull_layout {size : Nat} {h : DijkstraHeap} {ids rest : List Int}
    (hl : Layout size h ids rest) (hsize : h.currentSize = ids.length) :
    ∃ y rest', Layout size (growIfFull h) ids (y :: rest') ∧
      (growIfFull h).currentSize = h.currentSize ∧
      (growIfFull h).heapPosition = h.heapPosition := by
  have hlen : h.idHeapArray.length = ids.length + rest.length := by rw [hl.heap]; simp
  unfold growIfFull
  split_ifs with hfull
  · obtain rfl : rest = [] := List.eq_nil_of_length_eq_zero (by omega)
    refine ⟨-1, List.replicate 199 (-1), ⟨?_, hl.posLength, hl.nodup, hl.range, hl.pos⟩, rfl, rfl⟩
    have h200 : SIZE_INCREASE.toNat = 199 + 1 := rfl
    rw [grow, growBy, h200, List.replicate_succ, hl.heap, List.append_nil]
  · cases rest with
    | nil =>
      simp only [List.length_nil] at hlen
      omega
    | cons y rest' => exact ⟨y, rest', hl, rfl, rfl⟩

/-- `add` of a node that was never added, after its distance was set. -/
theorem add_insert_spec {dist : List Int} {h : DijkstraHeap} {Q F : Int → Prop}
    (hh : Holds dist h Q F) {id : Int} (d : Int) (hid : F id) :
    ∃ h', add (dist.set id.toNat d) h id = .ok h' ∧
      Holds (dist.set id.toNat d) h' (fun x => Q x ∨ x = id) (fun x => F x ∧ x ≠ id) := by
  have hdisj := disjoint_of_holds hh
  obtain ⟨ids, rest₀, hl₀, hsize, hQ, hF, hheap⟩ := hh
  have hposid := hF id hid
  have hr := rd_bounds hposid
  rw [hl₀.posLength] at hr
  have hnot : id ∉ ids := fun hx => hdisj id ((hQ id).mpr hx) hid
  obtain ⟨y, rest, hl, hgsize, hgpos⟩ := growIfFull_layout hl₀ hsize
  have hcur : (growIfFull h).currentSize = (ids.length : Int) := by rw [hgsize, hsize]
  set g := growIfFull h with hg
  have hlenPos : g.heapPosition.length = dist.length := hl.posLength
  have hidAt : ∀ m, m < ids.length → BinHeap.idAt (ids ++ [id]) m = BinHeap.idAt ids m := by
    intro m hm
    simp only [BinHeap.idAt, List.getD_eq_getElem?_getD]
    rw [List.getElem?_append_left hm]
  have hheap₁ : BinHeap.IsHeap (key (dist.set id.toNat d)) ids := by
    intro c hc hcl
    have hkey : ∀ m, m < ids.length → key (dist.set id.toNat d) (BinHeap.idAt ids m)
        = key dist (BinHeap.idAt ids m) := by
      intro m hm
      rw [key_set hr.1 hr.2 (hl.range _ (BinHeap.idAt_mem hm)).1, if_neg]
      rintro he
      exact hnot (he ▸ BinHeap.idAt_mem hm)
    rw [hkey _ (by omega), hkey c hcl]
    exact hheap c hc hcl
  have hstart : Sifting (dist.set id.toNat d).length
      { g with
        idHeapArray := ids ++ id :: rest
        heapPosition := g.heapPosition.set id.toNat ids.length } rest
      { g with
        idHeapArray := ids ++ id :: rest
        heapPosition := g.heapPosition.set id.toNat ids.length } (ids ++ [id]) := by
    refine ⟨⟨by simp, by simp [hlenPos], ?_, ?_, ?_⟩, rfl, fun _ _ => rfl⟩
    · rw [List.nodup_append]
      refine ⟨hl.nodup, List.nodup_singleton id, ?_⟩
      intro a ha b hb hab
      rw [List.mem_singleton.mp hb] at hab
      exact hnot (hab ▸ ha)
    · intro x hx
      rw [List.length_set]
      rcases List.mem_append.mp hx with hx | hx
      · exact hl.range x hx
      · rw [List.mem_singleton.mp hx]
        exact hr
    · intro m hm
      rw [List.length_append, List.length_singleton] at hm
      rw [rd_set hr.1 (by omega)]
      rcases Nat.lt_or_ge m ids.length with hlt | hge
      · have hne : BinHeap.idAt ids m ≠ id := fun he => hnot (he ▸ BinHeap.idAt_mem hlt)
        rw [hidAt m hlt, if_neg hne]
        exact hl.pos m hlt
      · have hm' : m = ids.length := by omega
        have hidm : BinHeap.idAt (ids ++ [id]) m = id := by simp [BinHeap.idAt, hm']
        rw [if_pos hidm, hm']
  obtain ⟨h', ids', hrun, hsift, hperm, hheap'⟩ := BinHeap.heapifyBottomUp_spec
    (sifts (dist.set id.toNat d) _ rest) (ids.length + 1) _ (ids ++ [id]) ids.length
    (Nat.lt_succ_self _) (by simp) hstart (hheap₁.upInv_append id)
  have hmem' : ∀ x, x ∈ ids' ↔ x ∈ ids ∨ x = id := by
    intro x
    rw [hperm.mem_iff]
    simp
  refine ⟨{ h' with currentSize := h'.currentSize + 1 }, ?_, ids', rest,
    ⟨hsift.layout.heap, hsift.layout.posLength, hsift.layout.nodup, hsift.layout.range,
      hsift.layout.pos⟩, ?_, ?_, ?_, hheap'⟩
  · have hwr : wr g.idHeapArray (ids.length : Int) id = .ok (ids ++ id :: rest) := by
      rw [hl.heap, wr_of_bounds _ (by omega) (by simp), Int.toNat_natCast]
      simp
    unfold add
    rw [hposid, ok_bind, if_neg (by simp)]
    simp only [← hg, hcur, hwr, ok_bind]
    rw [wr_of_bounds _ hr.1 (by omega), ok_bind, heapifyBottomUp, Int.toNat_natCast, ← hcur]
    rw [← hcur] at hrun
    rw [hrun, ok_bind]
    rfl
  · rw [hperm.length_eq]
    simp only [hsift.size, hcur]
    simp
  · intro x
    simp only [hmem', hQ]
  · rintro x ⟨hx, hne⟩
    have hout : x ∉ ids' := by
      rw [hmem']
      rintro (h1 | h1)
      · exact hdisj x ((hQ x).mpr h1) hx
      · exact hne h1
    rw [hsift.outside x hout]
    simp only
    rw [rd_set hr.1 (by omega), if_neg hne, hgpos]
    exact hF x hx

/-- `add` of a node whose distance was just lowered to `d`. -/
theorem add_spec {dist : List Int} {h : DijkstraHeap} {Q F : Int → Prop}
    (hh : Holds dist h Q F) (id d : Int) (hid : Q id ∧ d ≤ key dist id ∨ F id) :
    ∃ h', add (dist.set id.toNat d) h id = .ok h' ∧
      Holds (dist.set id.toNat d) h' (fun x => Q x ∨ x = id) (fun x => F x ∧ x ≠ id) := by
  rcases hid with ⟨hQ, hle⟩ | hF
  · obtain ⟨h', hrun, ids, rest, hl, hsize, hids, hfresh, hheap⟩ := add_update_spec hh hQ hle
    refine ⟨h', hrun, ids, rest, hl, hsize, ?_, fun x hx => hfresh x hx.1, hheap⟩
    intro x
    rw [← hids x]
    constructor
    · rintro (hx | rfl)
      · exact hx
      · exact hQ
    · exact Or.inl
  · exact add_insert_spec hh d hF

section getNext

variable {dist : List Int} {h : DijkstraHeap} {v last : Int} {mid rest : List Int}

/-- The only node of the heap is removed; its position stays as it is. -/
theorem getNext_single (hl : Layout dist.length h [v] rest) (hsize : h.currentSize = 1) :
    ∃ h', getNext dist h = .ok (v, h') ∧ Layout dist.length h' [] (-1 :: rest) ∧
      h'.currentSize = 0 ∧ ∀ x, x ≠ v → rd h'.heapPosition x = rd h.heapPosition x := by
  have hv := hl.range v (List.mem_cons_self ..)
  have hroot : rd h.idHeapArray 0 = .ok v := by rw [hl.heap]; rfl
  have hcur : h.currentSize - 1 = 0 := by omega
  refine ⟨{ heapPosition := h.heapPosition.set v.toNat 0
            idHeapArray := -1 :: rest, currentSize := 0 }, ?_,
    ⟨rfl, by rw [List.length_set, hl.posLength], by simp, by simp, by simp⟩, rfl, ?_⟩
  · unfold getNext
    simp only [hroot, ok_bind, hcur]
    rw [hl.heap, wr_of_bounds _ (by omega) (by simp), ok_bind,
      wr_of_bounds _ hv.1 (by rw [hl.posLength]; exact hv.2), ok_bind,
      wr_of_bounds _ (by omega) (by simp), ok_bind, heapifyTopDown]
    rw [show Int.toNat 0 = 0 from rfl, BinHeap.heapifyTopDown_empty]
    rfl
  · intro x hx
    rw [rd_set hv.1 (by rw [hl.posLength]; exact hv.2), if_neg hx]

/-- The last node takes the place of the first one. -/
theorem sifting_root (hl : Layout dist.length h (v :: (mid ++ [last])) rest) :
    Sifting dist.length
      { heapPosition := h.heapPosition.set last.toNat 0
        idHeapArray := (last :: mid) ++ -1 :: rest
        currentSize := h.currentSize - 1 } (-1 :: rest)
      { heapPosition := h.heapPosition.set last.toNat 0
        idHeapArray := (last :: mid) ++ -1 :: rest
        currentSize := h.currentSize - 1 } (last :: mid) := by
  have hlast := hl.range last (by simp)
  have hnd : (last :: mid).Nodup := (List.perm_append_singleton last mid).nodup_iff.mp
    (List.nodup_cons.mp hl.nodup).2
  refine ⟨⟨rfl, by rw [List.length_set, hl.posLength], hnd, ?_, ?_⟩, rfl, fun _ _ => rfl⟩
  · intro x hx
    apply hl.range x
    cases List.mem_cons.mp hx with
    | inl hx => simp [hx]
    | inr hx => simp [hx]
  · intro i hi
    rw [rd_set hlast.1 (by rw [hl.posLength]; exact hlast.2)]
    cases i with
    | zero => rw [if_pos (by rfl)]; rfl
    | succ i =>
      have hi' : i < mid.length := by simpa using hi
      have hid : BinHeap.idAt (last :: mid) (i + 1) = mid[i] := by
        simp [BinHeap.idAt, hi']
      have hid' : BinHeap.idAt (v :: (mid ++ [last])) (i + 1) = mid[i] := by
        simp [BinHeap.idAt, hi', List.getElem?_append_left]
      have hne : mid[i] ≠ last := fun he =>
        (List.nodup_cons.mp hnd).1 (he ▸ List.getElem_mem hi')
      rw [hid, if_neg hne, ← hid']
      exact hl.pos (i + 1) (by simp; omega)

/-- One of several nodes is removed. -/
theorem getNext_sink (hl : Layout dist.length h (v :: (mid ++ [last])) rest)
    (hsize : h.currentSize = mid.length + 2)
    (hheap : BinHeap.IsHeap (key dist) (v :: (mid ++ [last]))) :
    ∃ h' ids', getNext dist h = .ok (v, h') ∧ Layout dist.length h' ids' (-1 :: rest) ∧
      ids'.Perm (mid ++ [last]) ∧ h'.currentSize = ids'.length ∧ BinHeap.IsHeap (key dist) ids' ∧
      ∀ x, x ∉ mid ++ [last] → rd h'.heapPosition x = rd h.heapPosition x := by
  have hroot : rd h.idHeapArray 0 = .ok v := by rw [hl.heap]; rfl
  have hlast := hl.range last (by simp)
  have hcur : h.currentSize - 1 = (mid.length : Int) + 1 := by omega
  have hrdlast : rd h.idHeapArray (h.currentSize - 1) = .ok last := by
    rw [hcur, hl.heap, rd_eq_ok]
    refine ⟨by omega, ?_⟩
    rw [show ((mid.length : Int) + 1).toNat = mid.length + 1 by omega]
    simp
  have hdown : BinHeap.DownInv (key dist) (last :: mid) 0 := by
    have h1 := hheap.downInv_replace_root (x := last) (by simp)
    have h2 : ((v :: (mid ++ [last])).set 0 last).dropLast = last :: mid := by
      rw [List.set_cons_zero, ← List.cons_append, List.dropLast_concat]
    rwa [h2] at h1
  obtain ⟨h', ids', hrun, hsift, hperm, hheap'⟩ := BinHeap.heapifyTopDown_spec
    (sifts dist _ (-1 :: rest)) ((h.currentSize - 1).toNat + 1) _ (last :: mid) 0
    (by simp; omega) (by simp) (sifting_root hl) hdown
  have hperm' : ids'.Perm (mid ++ [last]) :=
    hperm.trans (List.perm_append_singleton last mid).symm
  refine ⟨h', ids', ?_, hsift.layout, hperm', ?_, hheap', ?_⟩
  · have hwr0 : wr h.idHeapArray 0 last = .ok ((last :: mid) ++ last :: rest) := by
      rw [hl.heap, wr_of_bounds _ (by omega) (by simp; omega)]
      simp
    have hwr1 : wr ((last :: mid) ++ last :: rest) (h.currentSize - 1) (-1)
        = .ok ((last :: mid) ++ -1 :: rest) := by
      rw [hcur, wr_of_bounds _ (by omega) (by simp)]
      rw [show ((mid.length : Int) + 1).toNat = (last :: mid).length by simp]
      simp
    unfold getNext
    simp only [hroot, ok_bind, hrdlast, hwr0]
    rw [wr_of_bounds _ hlast.1 (by rw [hl.posLength]; exact hlast.2), ok_bind, hwr1, ok_bind,
      heapifyTopDown]
    have hn : ((last :: mid).length : Int) = h.currentSize - 1 := by simp [hcur]
    rw [hn] at hrun
    rw [show ((0 : Nat) : Int) = 0 from rfl] at hrun
    rw [hrun]
    rfl
  · rw [hsift.size, hperm.length_eq, hcur]
    simp
  · intro x hx
    rw [hsift.outside x (fun h1 => hx (hperm'.mem_iff.mp h1))]
    simp only
    rw [rd_set hlast.1 (by rw [hl.posLength]; exact hlast.2), if_neg]
    intro he
    exact hx (by simp [he])

end getNext

/-- `getNext` removes a node with the smallest distance from a heap that is
not empty. -/
theorem getNext_spec {dist : List Int} {h : DijkstraHeap} {Q F : Int → Prop}
    (hh : Holds dist h Q F) (hne : isEmpty h = false) :
    ∃ v h', getNext dist h = .ok (v, h') ∧ Q v ∧ (∀ x, Q x → key dist v ≤ key dist x) ∧
      Holds dist h' (fun x => Q x ∧ x ≠ v) F := by
  have hdisj := disjoint_of_holds hh
  obtain ⟨ids, rest, hl, hsize, hQ, hF, hheap⟩ := hh
  have hlen : 0 < ids.length := by
    rw [isEmpty, beq_eq_false_iff_ne, hsize] at hne
    omega
  cases ids with
  | nil => simp at hlen
  | cons v tail =>
    have hmin : ∀ x, Q x → key dist v ≤ key dist x :=
      fun x hx => hheap.root_le_of_mem ((hQ x).mp hx)
    have hQv : Q v := (hQ v).mpr (List.mem_cons_self ..)
    have hnew : ∀ x, x ∈ tail ↔ x ∈ v :: tail ∧ x ≠ v := by
      intro x
      constructor
      · intro hx
        exact ⟨List.mem_cons_of_mem v hx, fun he => (List.nodup_cons.mp hl.nodup).1 (he ▸ hx)⟩
      · intro hx
        exact (List.mem_cons.mp hx.1).resolve_left hx.2
    have hFout : ∀ x, F x → x ∉ v :: tail := fun x hx hmem => hdisj x ((hQ x).mpr hmem) hx
    rcases List.eq_nil_or_concat tail with rfl | ⟨mid, last, rfl⟩
    · obtain ⟨h', hrun, hl', hsize', hpos⟩ := getNext_single hl hsize
      refine ⟨v, h', hrun, hQv, hmin, [], -1 :: rest, hl', hsize', ?_, ?_, ?_⟩
      · intro x
        show Q x ∧ x ≠ v ↔ _
        rw [hQ, hnew]
      · intro x hx
        rw [hpos x fun he => hFout x hx (by simp [he])]
        exact hF x hx
      · intro c _ hc
        simp at hc
    · simp only [List.concat_eq_append] at *
      obtain ⟨h', ids', hrun, hl', hperm, hsize', hheap', hpos⟩ := getNext_sink hl
        (by rw [hsize]; simp; omega) hheap
      refine ⟨v, h', hrun, hQv, hmin, ids', -1 :: rest, hl', hsize', ?_, ?_, hheap'⟩
      · intro x
        show Q x ∧ x ≠ v ↔ _
        rw [hperm.mem_iff, hQ, hnew]
      · intro x hx
        rw [hpos x fun hmem => hFout x hx (List.mem_cons_of_mem v hmem)]
        exact hF x hx

end DijkstraHeap

end SeaRouter
