import SeaRouter.Lib.Array

/-!
# Sifting in a binary min-heap

A heap of ids is a list: the children of position `i` are at `2 * i + 1` and
`2 * i + 2`.  The ids are ordered by a key that is stored elsewhere, and the
structure around the heap remembers where each id is, so a comparison and an
exchange are operations of that structure.  `heapifyBottomUp` and
`heapifyTopDown` are the two sifts over any such pair of operations.

`Sifts` is what the operations have to do: on a structure that holds the heap
`h`, a comparison compares the keys of two positions and an exchange leads to
a structure that holds `swapAt h i j`.  `siftUp` and `siftDown` are the sifts on
the list alone, and `heapifyBottomUp_eq` and `heapifyTopDown_eq` say that those
of the structure lead there: the ids end up in an order that depends on the list
and the keys only.  `heapifyBottomUp_spec` and `heapifyTopDown_spec` then say
that a sift from a heap with one fault ends in a heap of the same ids.
-/

namespace BinHeap

open Java

/-! ## Exchanges -/

/-- The id at position `i`. -/
def idAt (h : List Int) (i : Nat) : Int := h.getD i 0

/-- The list after the exchange of two positions. -/
def swapAt (h : List Int) (i j : Nat) : List Int :=
  (h.set i (idAt h j)).set j (idAt h i)

@[simp]
theorem swapAt_length (h : List Int) (i j : Nat) : (swapAt h i j).length = h.length := by
  simp [swapAt]

theorem idAt_eq_getElem {h : List Int} {i : Nat} (hi : i < h.length) : idAt h i = h[i] := by
  simp [idAt, List.getD, List.getElem?_eq_getElem hi]

theorem idAt_mem {h : List Int} {i : Nat} (hi : i < h.length) : idAt h i ∈ h := by
  rw [idAt_eq_getElem hi]
  exact List.getElem_mem hi

theorem exists_idAt_of_mem {h : List Int} {x : Int} (hx : x ∈ h) :
    ∃ i, i < h.length ∧ idAt h i = x := by
  obtain ⟨i, hi, hix⟩ := List.mem_iff_getElem.mp hx
  exact ⟨i, hi, by rw [idAt_eq_getElem hi, hix]⟩

theorem idAt_swapAt {h : List Int} {i j : Nat} (hi : i < h.length) (hj : j < h.length)
    (m : Nat) :
    idAt (swapAt h i j) m = if m = i then idAt h j else if m = j then idAt h i else idAt h m := by
  unfold swapAt
  by_cases hmj : m = j
  · subst hmj
    by_cases hmi : m = i
    · subst hmi
      simp [idAt, hi]
    · rw [if_neg hmi, if_pos rfl]
      simp [idAt, hj]
  · by_cases hmi : m = i
    · subst hmi
      rw [if_pos rfl]
      simp only [idAt, List.getD_eq_getElem?_getD]
      rw [List.getElem?_set_ne (by omega), List.getElem?_set_self hi]
      simp
    · rw [if_neg hmi, if_neg hmj]
      simp only [idAt, List.getD_eq_getElem?_getD]
      rw [List.getElem?_set_ne (by omega), List.getElem?_set_ne (by omega)]

theorem swapAt_perm {h : List Int} {i j : Nat} (hi : i < h.length) (hj : j < h.length) :
    (swapAt h i j).Perm h := by
  unfold swapAt
  rw [idAt_eq_getElem hi, idAt_eq_getElem hj]
  exact List.set_set_perm hi hj

/-! ## The heap order -/

/-- No id is before its parent. -/
def IsHeap (key : Int → Int) (h : List Int) : Prop :=
  ∀ c, 0 < c → c < h.length → key (idAt h ((c - 1) / 2)) ≤ key (idAt h c)

/-- A heap whose only fault is that the id at `i` may belong further up. -/
def UpInv (key : Int → Int) (h : List Int) (i : Nat) : Prop :=
  (∀ c, 0 < c → c < h.length → c ≠ i → key (idAt h ((c - 1) / 2)) ≤ key (idAt h c)) ∧
    (0 < i → ∀ c, 0 < c → c < h.length → (c - 1) / 2 = i →
      key (idAt h ((i - 1) / 2)) ≤ key (idAt h c))

/-- A heap whose only fault is that the id at `i` may belong further down. -/
def DownInv (key : Int → Int) (h : List Int) (i : Nat) : Prop :=
  (∀ c, 0 < c → c < h.length → (c - 1) / 2 ≠ i →
      key (idAt h ((c - 1) / 2)) ≤ key (idAt h c)) ∧
    (0 < i → ∀ c, 0 < c → c < h.length → (c - 1) / 2 = i →
      key (idAt h ((i - 1) / 2)) ≤ key (idAt h c))

/-- The root of a heap has the smallest key. -/
theorem root_le {key : Int → Int} {h : List Int} (hh : IsHeap key h) :
    ∀ i, i < h.length → key (idAt h 0) ≤ key (idAt h i) := by
  intro i
  induction i using Nat.strong_induction_on with
  | _ i ih =>
    intro hi
    rcases Nat.eq_zero_or_pos i with rfl | hpos
    · exact le_refl _
    · exact le_trans (ih ((i - 1) / 2) (by omega) (by omega)) (hh i hpos hi)

theorem IsHeap.root_le_of_mem {key : Int → Int} {h : List Int} (hh : IsHeap key h)
    {x : Int} (hx : x ∈ h) : key (idAt h 0) ≤ key x := by
  obtain ⟨i, hi, rfl⟩ := exists_idAt_of_mem hx
  exact root_le hh i hi

/-- A heap stays one with its only fault at `i` when the key of the id at `i`
gets smaller. -/
theorem IsHeap.upInv_of_key_le {key key' : Int → Int} {h : List Int} (hh : IsHeap key h)
    {i : Nat} (hle : key' (idAt h i) ≤ key (idAt h i))
    (heq : ∀ c, c < h.length → c ≠ i → key' (idAt h c) = key (idAt h c)) :
    UpInv key' h i := by
  constructor
  · intro c hc hcl hci
    have hkey := hh c hc hcl
    rw [heq c hcl hci]
    by_cases hp : (c - 1) / 2 = i
    · rw [hp] at hkey ⊢
      exact le_trans hle hkey
    · rw [heq _ (by omega) hp]
      exact hkey
  · intro hi c hc hcl hp
    have hkey := hh c hc hcl
    rw [hp] at hkey
    rw [heq c hcl (by omega), heq _ (by omega) (by omega)]
    exact le_trans (hh i hi (by omega)) hkey

/-- A heap with one more id at its end has its only fault there. -/
theorem IsHeap.upInv_append {key : Int → Int} {h : List Int} (hh : IsHeap key h) (x : Int) :
    UpInv key (h ++ [x]) h.length := by
  have hid : ∀ c, c < h.length → idAt (h ++ [x]) c = idAt h c := by
    intro c hc
    simp only [idAt, List.getD_eq_getElem?_getD]
    rw [List.getElem?_append_left hc]
  constructor
  · intro c hc hcl hci
    have hc' : c < h.length := by
      rw [List.length_append, List.length_singleton] at hcl
      omega
    rw [hid c hc', hid _ (by omega)]
    exact hh c hc hc'
  · intro _ c hc hcl hp
    rw [List.length_append, List.length_singleton] at hcl
    omega

/-- A heap whose root is replaced by its last id has its only fault there. -/
theorem IsHeap.downInv_replace_root {key : Int → Int} {x : Int} {h : List Int}
    (hh : IsHeap key h) (hlen : 1 < h.length) :
    DownInv key ((h.set 0 x).dropLast) 0 := by
  have hid : ∀ c, 0 < c → c < h.length - 1 → idAt ((h.set 0 x).dropLast) c = idAt h c := by
    intro c hc hcl
    simp only [idAt, List.getD_eq_getElem?_getD]
    rw [List.getElem?_dropLast, if_pos (by rw [List.length_set]; omega),
      List.getElem?_set_ne (by omega)]
  constructor
  · intro c hc hcl hp
    rw [List.length_dropLast, List.length_set] at hcl
    rw [hid c hc hcl, hid _ (by omega) (by omega)]
    exact hh c hc (by omega)
  · intro h0
    exact absurd h0 (lt_irrefl 0)

/-! ## The sifts -/

section sift

variable {σ : Type}

/-- Sift the id at position `nodeID` up. -/
def heapifyBottomUp (compareValues : σ → Int → Int → Run Int)
    (swap : σ → Int → Int → Run σ) : Nat → σ → Int → Run σ
  | 0, _, _ => .error .outOfFuel
  | fuel + 1, s, nodeID =>
    if nodeID ≤ 0 then return s
    else do
      let parent := (nodeID - 1) / 2
      if (← compareValues s nodeID parent) < 0 then
        let s' ← swap s nodeID parent
        heapifyBottomUp compareValues swap fuel s' parent
      else return s

/-- The one of `child` and `smallest` with the smaller key, when `child` is a
position of the heap. -/
def smallerOf (compareValues : σ → Int → Int → Run Int) (s : σ) (n child smallest : Int) :
    Run Int :=
  if child < n then do
    if (← compareValues s child smallest) < 0 then return child else return smallest
  else return smallest

/-- Sift the id at position `root` of a heap of `n` ids down. -/
def heapifyTopDown (compareValues : σ → Int → Int → Run Int)
    (swap : σ → Int → Int → Run σ) : Nat → σ → Int → Int → Run σ
  | 0, _, _, _ => .error .outOfFuel
  | fuel + 1, s, n, root => do
    let leftChild := 2 * root + 1
    let rightChild := 2 * root + 2
    let smallest ← smallerOf compareValues s n leftChild root
    let smallest ← smallerOf compareValues s n rightChild smallest
    if smallest ≠ root then
      let s' ← swap s root smallest
      heapifyTopDown compareValues swap fuel s' n smallest
    else return s

/-- What the operations of the structure do, when `Holds s h` says that the
structure `s` holds the heap `h`. -/
structure Sifts (key : Int → Int) (Holds : σ → List Int → Prop)
    (compareValues : σ → Int → Int → Run Int) (swap : σ → Int → Int → Run σ) : Prop where
  compare : ∀ s h (i j : Nat), Holds s h → i < h.length → j < h.length →
    compareValues s i j = .ok (if key (idAt h i) = key (idAt h j) then 0
      else if key (idAt h j) < key (idAt h i) then 1 else -1)
  exchange : ∀ s h (i j : Nat), Holds s h → i < h.length → j < h.length → i ≠ j →
    ∃ s', swap s i j = .ok s' ∧ Holds s' (swapAt h i j)

variable {key : Int → Int} {Holds : σ → List Int → Prop}
  {compareValues : σ → Int → Int → Run Int} {swap : σ → Int → Int → Run σ}

/-- What every exchange preserves, a sift preserves as well. -/
theorem heapifyBottomUp_inv {P : σ → Prop}
    (hswap : ∀ s i j s', P s → swap s i j = .ok s' → P s') :
    ∀ (fuel : Nat) (s : σ) (i : Int) (s' : σ), P s →
      heapifyBottomUp compareValues swap fuel s i = .ok s' → P s' := by
  intro fuel
  induction fuel with
  | zero =>
    intro s i s' _ hrun
    simp [heapifyBottomUp] at hrun
  | succ fuel ih =>
    intro s i s' hs hrun
    rw [heapifyBottomUp] at hrun
    split_ifs at hrun with hi
    · rw [pure_eq_ok, Except.ok.injEq] at hrun
      exact hrun ▸ hs
    · rw [bind_eq_ok] at hrun
      obtain ⟨c, _, hrun⟩ := hrun
      split_ifs at hrun with hc
      · rw [bind_eq_ok] at hrun
        obtain ⟨s₁, hs₁, hrun⟩ := hrun
        exact ih s₁ _ s' (hswap s _ _ s₁ hs hs₁) hrun
      · rw [pure_eq_ok, Except.ok.injEq] at hrun
        exact hrun ▸ hs

theorem heapifyTopDown_inv {P : σ → Prop}
    (hswap : ∀ s i j s', P s → swap s i j = .ok s' → P s') :
    ∀ (fuel : Nat) (s : σ) (n root : Int) (s' : σ), P s →
      heapifyTopDown compareValues swap fuel s n root = .ok s' → P s' := by
  intro fuel
  induction fuel with
  | zero =>
    intro s n root s' _ hrun
    simp [heapifyTopDown] at hrun
  | succ fuel ih =>
    intro s n root s' hs hrun
    rw [heapifyTopDown, bind_eq_ok] at hrun
    obtain ⟨left, _, hrun⟩ := hrun
    rw [bind_eq_ok] at hrun
    obtain ⟨smallest, _, hrun⟩ := hrun
    split_ifs at hrun with hne
    · rw [bind_eq_ok] at hrun
      obtain ⟨s₁, hs₁, hrun⟩ := hrun
      exact ih s₁ n smallest s' (hswap s _ _ s₁ hs hs₁) hrun
    · rw [pure_eq_ok, Except.ok.injEq] at hrun
      exact hrun ▸ hs

/-- The comparison answers a negative number exactly when the first key is the
smaller one. -/
theorem Sifts.compare_lt (hop : Sifts key Holds compareValues swap) {s : σ} {h : List Int}
    {i j : Nat} (hs : Holds s h) (hi : i < h.length) (hj : j < h.length) :
    ∃ r, compareValues s i j = .ok r ∧ (r < 0 ↔ key (idAt h i) < key (idAt h j)) := by
  refine ⟨_, hop.compare s h i j hs hi hj, ?_⟩
  split_ifs with h1 h2 <;> omega

theorem UpInv.exchange {h : List Int} {i : Nat} (hinv : UpInv key h i) (hi0 : 0 < i)
    (hi : i < h.length) (hlt : key (idAt h i) < key (idAt h ((i - 1) / 2))) :
    UpInv key (swapAt h i ((i - 1) / 2)) ((i - 1) / 2) := by
  have hp : (i - 1) / 2 < h.length := by omega
  have hid := idAt_swapAt hi hp
  constructor
  · intro c hc hcl hci
    rw [swapAt_length] at hcl
    rw [hid c, hid ((c - 1) / 2)]
    by_cases hcI : c = i
    · subst hcI
      rw [if_neg (by omega), if_pos rfl, if_pos rfl]
      exact le_of_lt hlt
    · rw [if_neg hcI, if_neg hci]
      by_cases hpi : (c - 1) / 2 = i
      · rw [if_pos hpi]
        exact hinv.2 hi0 c hc hcl hpi
      · rw [if_neg hpi]
        have hkey := hinv.1 c hc hcl hcI
        by_cases hpp : (c - 1) / 2 = (i - 1) / 2
        · rw [if_pos hpp]
          rw [hpp] at hkey
          exact le_trans (le_of_lt hlt) hkey
        · rw [if_neg hpp]
          exact hkey
  · intro hp0 c hc hcl hpc
    rw [swapAt_length] at hcl
    have hgrand := hinv.1 ((i - 1) / 2) hp0 hp (by omega)
    rw [hid c, hid (((i - 1) / 2 - 1) / 2), if_neg (by omega), if_neg (by omega)]
    by_cases hcI : c = i
    · rw [if_pos hcI]
      exact hgrand
    · rw [if_neg hcI, if_neg (by omega)]
      have hkey := hinv.1 c hc hcl hcI
      rw [hpc] at hkey
      exact le_trans hgrand hkey

/-- The list after its element at `i` was sifted up. -/
def siftUp (key : Int → Int) : Nat → List Int → Nat → List Int
  | 0, h, _ => h
  | fuel + 1, h, i =>
    if 0 < i ∧ key (idAt h i) < key (idAt h ((i - 1) / 2)) then
      siftUp key fuel (swapAt h i ((i - 1) / 2)) ((i - 1) / 2)
    else h

theorem heapifyBottomUp_eq (hop : Sifts key Holds compareValues swap) :
    ∀ (fuel : Nat) (s : σ) (h : List Int) (i : Nat), i < fuel → i < h.length → Holds s h →
      ∃ s', heapifyBottomUp compareValues swap fuel s i = .ok s' ∧
        Holds s' (siftUp key fuel h i) := by
  intro fuel
  induction fuel with
  | zero =>
    intro s h i hfuel
    exact absurd hfuel (Nat.not_lt_zero _)
  | succ fuel ih =>
    intro s h i hfuel hi hs
    rw [heapifyBottomUp, siftUp]
    rcases Nat.eq_zero_or_pos i with rfl | hpos
    · exact ⟨s, rfl, by rw [if_neg (by omega)]; exact hs⟩
    · have hparent : ((i : Int) - 1) / 2 = ((i - 1) / 2 : Nat) := by omega
      have hp : (i - 1) / 2 < h.length := by omega
      obtain ⟨r, hr, hrlt⟩ := hop.compare_lt hs hi hp
      rw [if_neg (by omega)]
      simp only [hparent, hr, ok_bind]
      by_cases hneg : r < 0
      · obtain ⟨s', hs', hsw⟩ := hop.exchange s h i ((i - 1) / 2) hs hi hp (by omega)
        rw [if_pos hneg, if_pos ⟨hpos, hrlt.mp hneg⟩, hs', ok_bind]
        exact ih s' _ ((i - 1) / 2) (by omega) (by rw [swapAt_length]; exact hp) hsw
      · rw [if_neg hneg, if_neg (fun h => hneg (hrlt.mpr h.2))]
        exact ⟨s, rfl, hs⟩

theorem siftUp_perm (key : Int → Int) :
    ∀ (fuel : Nat) (h : List Int) (i : Nat), i < h.length → (siftUp key fuel h i).Perm h := by
  intro fuel
  induction fuel with
  | zero =>
    intro h i _
    exact List.Perm.refl h
  | succ fuel ih =>
    intro h i hi
    rw [siftUp]
    split_ifs with hlt
    · have hp : (i - 1) / 2 < h.length := by omega
      exact (ih _ _ (by rw [swapAt_length]; exact hp)).trans (swapAt_perm hi hp)
    · exact List.Perm.refl h

/-- The fault moves to the parent with each exchange. -/
theorem siftUp_isHeap :
    ∀ (fuel : Nat) (h : List Int) (i : Nat), i < fuel → i < h.length → UpInv key h i →
      IsHeap key (siftUp key fuel h i) := by
  intro fuel
  induction fuel with
  | zero =>
    intro h i hfuel
    exact absurd hfuel (Nat.not_lt_zero _)
  | succ fuel ih =>
    intro h i hfuel hi hinv
    rw [siftUp]
    split_ifs with hlt
    · exact ih _ _ (by omega) (by rw [swapAt_length]; omega) (hinv.exchange hlt.1 hi hlt.2)
    · intro c hc hcl
      by_cases hci : c = i
      · subst hci
        exact not_lt.mp (fun h => hlt ⟨hc, h⟩)
      · exact hinv.1 c hc hcl hci

/-- A sift up ends in a heap of the same ids. -/
theorem heapifyBottomUp_spec (hop : Sifts key Holds compareValues swap) (fuel : Nat) (s : σ)
    (h : List Int) (i : Nat) (hfuel : i < fuel) (hi : i < h.length) (hs : Holds s h)
    (hinv : UpInv key h i) :
    ∃ s' h', heapifyBottomUp compareValues swap fuel s i = .ok s' ∧ Holds s' h' ∧
      h'.Perm h ∧ IsHeap key h' := by
  obtain ⟨s', hrun, hs'⟩ := heapifyBottomUp_eq hop fuel s h i hfuel hi hs
  exact ⟨s', _, hrun, hs', siftUp_perm key fuel h i hi, siftUp_isHeap fuel h i hfuel hi hinv⟩

theorem DownInv.exchange {h : List Int} {i c : Nat} (hinv : DownInv key h i)
    (hc0 : 0 < c) (hci : (c - 1) / 2 = i) (hc : c < h.length)
    (hlt : key (idAt h c) < key (idAt h i))
    (hmin : ∀ d, 0 < d → d < h.length → (d - 1) / 2 = i → key (idAt h c) ≤ key (idAt h d)) :
    DownInv key (swapAt h i c) c := by
  have hi : i < h.length := by omega
  have hid := idAt_swapAt hi hc
  constructor
  · intro d hd hdl hdp
    rw [swapAt_length] at hdl
    rw [hid d, hid ((d - 1) / 2), if_neg hdp]
    by_cases hpi : (d - 1) / 2 = i
    · rw [if_pos hpi]
      by_cases hdc : d = c
      · rw [if_neg (by omega), if_pos hdc]
        exact le_of_lt hlt
      · rw [if_neg (by omega), if_neg hdc]
        exact hmin d hd hdl hpi
    · rw [if_neg hpi]
      by_cases hdi : d = i
      · rw [if_pos hdi, hdi]
        exact hinv.2 (by omega) c hc0 hc hci
      · rw [if_neg hdi, if_neg (by rintro rfl; exact hpi hci)]
        exact hinv.1 d hd hdl hpi
  · intro _ d hd hdl hdp
    rw [swapAt_length] at hdl
    rw [hci, hid d, hid i, if_pos rfl, if_neg (by omega), if_neg (by omega)]
    have hkey := hinv.1 d hd hdl (by omega)
    rwa [hdp] at hkey

/-- The one of the positions `c` and `m` with the smaller key, when `c` is one. -/
def smallerAt (key : Int → Int) (h : List Int) (c m : Nat) : Nat :=
  if c < h.length ∧ key (idAt h c) < key (idAt h m) then c else m

/-- The position of the smallest key among `i` and its children. -/
def smallestAt (key : Int → Int) (h : List Int) (i : Nat) : Nat :=
  smallerAt key h (2 * i + 2) (smallerAt key h (2 * i + 1) i)

theorem smallerAt_spec (key : Int → Int) {h : List Int} (c : Nat) {m : Nat} (hm : m < h.length) :
    smallerAt key h c m < h.length ∧
      (smallerAt key h c m = m ∨
        smallerAt key h c m = c ∧ key (idAt h c) < key (idAt h m)) ∧
      key (idAt h (smallerAt key h c m)) ≤ key (idAt h m) ∧
      (c < h.length → key (idAt h (smallerAt key h c m)) ≤ key (idAt h c)) := by
  unfold smallerAt
  split_ifs with hlt
  · exact ⟨hlt.1, Or.inr ⟨rfl, hlt.2⟩, le_of_lt hlt.2, fun _ => le_refl _⟩
  · exact ⟨hm, Or.inl rfl, le_refl _, fun hc => not_lt.mp (fun h => hlt ⟨hc, h⟩)⟩

theorem smallerOf_eq (hop : Sifts key Holds compareValues swap) {s : σ} {h : List Int}
    (hs : Holds s h) (c : Nat) {m : Nat} (hm : m < h.length) :
    smallerOf compareValues s h.length c m = .ok (smallerAt key h c m : Int) := by
  unfold smallerOf smallerAt
  by_cases hc : c < h.length
  · obtain ⟨r, hr, hrlt⟩ := hop.compare_lt hs hc hm
    rw [if_pos (by omega), hr, ok_bind]
    by_cases hneg : r < 0
    · rw [if_pos hneg, if_pos ⟨hc, hrlt.mp hneg⟩]
      rfl
    · rw [if_neg hneg, if_neg (fun h => hneg (hrlt.mpr h.2))]
      rfl
  · rw [if_neg (by omega), if_neg (fun h => hc h.1)]
    rfl

/-- The position that the two comparisons of `heapifyTopDown` pick. -/
theorem smallestAt_spec (key : Int → Int) {h : List Int} {i : Nat} (hi : i < h.length) :
    smallestAt key h i < h.length ∧
      (smallestAt key h i = i ∨ (0 < smallestAt key h i ∧ (smallestAt key h i - 1) / 2 = i ∧
        key (idAt h (smallestAt key h i)) < key (idAt h i))) ∧
      (∀ d, 0 < d → d < h.length → (d - 1) / 2 = i →
        key (idAt h (smallestAt key h i)) ≤ key (idAt h d)) := by
  obtain ⟨hl, hlcase, hli, hlc⟩ := smallerAt_spec key (2 * i + 1) hi
  obtain ⟨hm, hmcase, hmi, hmc⟩ := smallerAt_spec key (2 * i + 2) hl
  rw [smallestAt]
  refine ⟨hm, ?_, ?_⟩
  · rcases hmcase with he | ⟨he, hlt⟩
    · rw [he]
      rcases hlcase with he | ⟨he, hlt⟩
      · exact Or.inl he
      · rw [he]
        exact Or.inr ⟨by omega, by omega, hlt⟩
    · rw [he]
      exact Or.inr ⟨by omega, by omega, lt_of_lt_of_le hlt hli⟩
  · intro d hd hdl hdp
    have hdc : d = 2 * i + 1 ∨ d = 2 * i + 2 := by omega
    rcases hdc with rfl | rfl
    · exact le_trans hmi (hlc hdl)
    · exact hmc hdl

/-- The list after its element at `i` was sifted down. -/
def siftDown (key : Int → Int) : Nat → List Int → Nat → List Int
  | 0, h, _ => h
  | fuel + 1, h, i =>
    if smallestAt key h i ≠ i then
      siftDown key fuel (swapAt h i (smallestAt key h i)) (smallestAt key h i)
    else h

theorem heapifyTopDown_eq (hop : Sifts key Holds compareValues swap) :
    ∀ (fuel : Nat) (s : σ) (h : List Int) (i : Nat), h.length - i < fuel → i < h.length →
      Holds s h →
      ∃ s', heapifyTopDown compareValues swap fuel s h.length i = .ok s' ∧
        Holds s' (siftDown key fuel h i) := by
  intro fuel
  induction fuel with
  | zero =>
    intro s h i hfuel
    exact absurd hfuel (Nat.not_lt_zero _)
  | succ fuel ih =>
    intro s h i hfuel hi hs
    have hleft := smallerOf_eq hop hs (2 * i + 1) hi
    have hright := smallerOf_eq hop hs (2 * i + 2) (smallerAt_spec key (2 * i + 1) hi).1
    push_cast at hleft hright
    obtain ⟨hmlt, hmcase, _⟩ := smallestAt_spec key hi
    rw [heapifyTopDown, siftDown]
    simp only [hleft, hright, ok_bind]
    rw [← smallestAt]
    by_cases hm : smallestAt key h i = i
    · rw [if_neg (by rw [hm]; simp), if_neg (not_not.mpr hm)]
      exact ⟨s, rfl, hs⟩
    · obtain ⟨s', hs', hsw⟩ := hop.exchange s h i _ hs hi hmlt (Ne.symm hm)
      obtain ⟨s'', hrun, hs''⟩ := ih s' (swapAt h i (smallestAt key h i)) (smallestAt key h i)
        (by rw [swapAt_length]; omega) (by rw [swapAt_length]; exact hmlt) hsw
      rw [swapAt_length] at hrun
      rw [if_pos (by omega), if_pos hm, hs', ok_bind]
      exact ⟨s'', hrun, hs''⟩

theorem siftDown_perm (key : Int → Int) :
    ∀ (fuel : Nat) (h : List Int) (i : Nat), i < h.length → (siftDown key fuel h i).Perm h := by
  intro fuel
  induction fuel with
  | zero =>
    intro h i _
    exact List.Perm.refl h
  | succ fuel ih =>
    intro h i hi
    have hm := (smallestAt_spec key hi).1
    rw [siftDown]
    split_ifs
    · exact (ih _ _ (by rw [swapAt_length]; exact hm)).trans (swapAt_perm hi hm)
    · exact List.Perm.refl h

/-- The fault moves to the child with the smaller key with each exchange. -/
theorem siftDown_isHeap :
    ∀ (fuel : Nat) (h : List Int) (i : Nat), h.length - i < fuel → i < h.length →
      DownInv key h i → IsHeap key (siftDown key fuel h i) := by
  intro fuel
  induction fuel with
  | zero =>
    intro h i hfuel
    exact absurd hfuel (Nat.not_lt_zero _)
  | succ fuel ih =>
    intro h i hfuel hi hinv
    obtain ⟨hmlt, hmcase, hmin⟩ := smallestAt_spec key hi
    rw [siftDown]
    split_ifs with hm
    · obtain ⟨hm0, hmp, hmkey⟩ := hmcase.resolve_left hm
      exact ih _ _ (by rw [swapAt_length]; omega) (by rw [swapAt_length]; exact hmlt)
        (hinv.exchange hm0 hmp hmlt hmkey hmin)
    · rw [not_not] at hm
      rw [hm] at hmin
      intro c hc hcl
      by_cases hp : (c - 1) / 2 = i
      · rw [hp]
        exact hmin c hc hcl hp
      · exact hinv.1 c hc hcl hp

/-- A sift down ends in a heap of the same ids. -/
theorem heapifyTopDown_spec (hop : Sifts key Holds compareValues swap) (fuel : Nat) (s : σ)
    (h : List Int) (i : Nat) (hfuel : h.length - i < fuel) (hi : i < h.length) (hs : Holds s h)
    (hinv : DownInv key h i) :
    ∃ s' h', heapifyTopDown compareValues swap fuel s h.length i = .ok s' ∧ Holds s' h' ∧
      h'.Perm h ∧ IsHeap key h' := by
  obtain ⟨s', hrun, hs'⟩ := heapifyTopDown_eq hop fuel s h i hfuel hi hs
  exact ⟨s', _, hrun, hs', siftDown_perm key fuel h i hi, siftDown_isHeap fuel h i hfuel hi hinv⟩

/-- A sift down from a position outside of the heap does nothing. -/
theorem heapifyTopDown_empty (s : σ) (fuel : Nat) :
    heapifyTopDown compareValues swap (fuel + 1) s 0 0 = .ok s := by
  simp [heapifyTopDown, smallerOf]

end sift

end BinHeap
