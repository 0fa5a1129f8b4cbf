import SeaRouter.Lib.Array

/-!
# Binary search, and tables in parallel arrays

`Arrays.binarySearch` is the loop of the Java library: it answers an index of
the key, or `-(insertion point) - 1`.  `searchLoop_spec` is its contract on a
sorted range.

A sorted array that is not full keeps `MAX_VALUE` in its free space, so the
search may run over the whole array.  `binarySearch_padded` is the contract of
that use: the answer is the `rank` of the key among the values, encoded by
whether the key is one of them.

A table stores its keys in such an array and the data of a key in other arrays
at the same index.  `assoc` reads one data array as a partial function of the
key, and the lemmas below it say what an insertion, a removal and a write at
one index do to that function.
-/

namespace Java

/-- The loop of `Arrays.binarySearch` on the range from `low` to `high`. -/
def searchLoop (a : List Int) (key : Int) : Nat → Int → Int → Run Int
  | 0, _, _ => .error .outOfFuel
  | fuel + 1, low, high =>
    if low ≤ high then do
      let mid := (low + high) / 2
      let midVal ← rd a mid
      if midVal < key then searchLoop a key fuel (mid + 1) high
      else if key < midVal then searchLoop a key fuel low (mid - 1)
      else return mid
    else return -(low + 1)

/-- `Arrays.binarySearch(a, key)`. -/
def binarySearch (a : List Int) (key : Int) : Run Int :=
  searchLoop a key (a.length + 1) 0 (a.length - 1)

/-- `Arrays.binarySearch(a, from, to, key)`. -/
def binarySearchRange (a : List Int) (fromIdx toIdx key : Int) : Run Int :=
  if fromIdx < 0 ∨ toIdx < fromIdx ∨ (a.length : Int) < toIdx then
    .error .indexOutOfBounds
  else searchLoop a key (a.length + 1) fromIdx (toIdx - 1)

/-- What a search in the range from `lo` up to `hi` answers: an index of the
key, or the point that separates the smaller from the larger values. -/
def SearchAnswer (a : List Int) (key lo hi r : Int) : Prop :=
  (0 ≤ r ∧ lo ≤ r ∧ r < hi ∧ rd a r = .ok key) ∨
    ∃ ins, r = -(ins + 1) ∧ lo ≤ ins ∧ ins ≤ hi ∧
      (∀ i x, lo ≤ i → i < ins → rd a i = .ok x → x < key) ∧
      (∀ i x, ins ≤ i → i < hi → rd a i = .ok x → key < x)

/-- The loop finds the key or its insertion point.  The invariant is that the
values below `low` are smaller than the key and those above `high` larger. -/
theorem searchLoop_spec (a : List Int) (key lo hi : Int) (hlo : 0 ≤ lo)
    (hhi : hi ≤ a.length)
    (hs : ∀ i j x y, lo ≤ i → i ≤ j → j < hi → rd a i = .ok x → rd a j = .ok y → x ≤ y) :
    ∀ (fuel : Nat) (low high : Int), lo ≤ low → high < hi → low ≤ high + 1 →
      (high - low + 1).toNat < fuel →
      (∀ i x, lo ≤ i → i < low → rd a i = .ok x → x < key) →
      (∀ i x, high < i → i < hi → rd a i = .ok x → key < x) →
      ∃ r, searchLoop a key fuel low high = .ok r ∧ SearchAnswer a key lo hi r := by
  intro fuel
  induction fuel with
  | zero =>
    intro low high _ _ _ hfuel
    exact absurd hfuel (Nat.not_lt_zero _)
  | succ fuel ih =>
    intro low high hll hhh hlh hfuel hbelow habove
    rw [searchLoop]
    split_ifs with hle
    · obtain ⟨v, hv⟩ := exists_rd (a := a) (i := (low + high) / 2) (by omega) (by omega)
      simp only [hv, ok_bind]
      split_ifs with h1 h2
      · refine ih _ _ (by omega) hhh (by omega) (by omega) ?_ habove
        intro i x hi0 hi1 hx
        exact lt_of_le_of_lt (hs i _ x v hi0 (by omega) (by omega) hx hv) h1
      · refine ih _ _ hll (by omega) (by omega) (by omega) hbelow ?_
        intro i x hi0 hi1 hx
        exact lt_of_lt_of_le h2 (hs _ i v x (by omega) (by omega) hi1 hv hx)
      · have hkey : v = key := by omega
        exact ⟨_, rfl, Or.inl ⟨by omega, by omega, by omega, by rw [hv, hkey]⟩⟩
    · refine ⟨_, rfl, Or.inr ⟨low, rfl, hll, by omega, hbelow, ?_⟩⟩
      intro i x hi0 hi1 hx
      exact habove i x (by omega) hi1 hx

/-! ## The rank of a key among sorted values -/

theorem lt_of_getElem?_of_lt {xs : List Int} (hs : xs.Pairwise (· < ·)) {i j : Nat}
    {x y : Int} (hx : xs[i]? = some x) (hy : xs[j]? = some y) (hij : i < j) : x < y := by
  obtain ⟨h1, h2⟩ := List.getElem?_eq_some_iff.mp hx
  obtain ⟨h3, h4⟩ := List.getElem?_eq_some_iff.mp hy
  have := List.pairwise_iff_getElem.mp hs i j h1 h3 hij
  rwa [h2, h4] at this

/-- The number of values below `key`. -/
def rank (xs : List Int) (key : Int) : Nat := xs.countP (· < key)

theorem rank_le_length (xs : List Int) (key : Int) : rank xs key ≤ xs.length :=
  List.countP_le_length

/-- In a sorted list the values below the key are those below its rank. -/
theorem lt_key_iff_lt_rank_of_le {xs : List Int} (hs : xs.Pairwise (· ≤ ·)) (key : Int) :
    ∀ (i : Nat) (x : Int), xs[i]? = some x → (x < key ↔ i < rank xs key) := by
  induction xs with
  | nil =>
    intro i x h
    simp at h
  | cons y ys ih =>
    obtain ⟨hy, hys⟩ := List.pairwise_cons.mp hs
    have hrank : rank (y :: ys) key = rank ys key + if y < key then 1 else 0 := by
      simp [rank, List.countP_cons]
    have hzero : ¬ y < key → rank ys key = 0 := by
      intro hyk
      rw [rank, List.countP_eq_zero]
      intro z hz
      have := hy z hz
      simp only [decide_eq_true_eq]
      omega
    intro i x hx
    cases i with
    | zero =>
      obtain rfl : y = x := by simpa using hx
      rw [hrank]
      by_cases hyk : y < key
      · simp [hyk]
      · simp [hyk, hzero hyk]
    | succ i =>
      have hx' : ys[i]? = some x := by simpa using hx
      have hyx : y ≤ x := hy x (List.mem_of_getElem? hx')
      rw [hrank, ih hys i x hx']
      by_cases hyk : y < key
      · simp [hyk]
      · rw [hzero hyk, if_neg hyk]
        omega

theorem pairwise_le_of_lt {xs : List Int} (hs : xs.Pairwise (· < ·)) :
    xs.Pairwise (· ≤ ·) :=
  hs.imp (fun h => le_of_lt h)

theorem lt_key_iff_lt_rank {xs : List Int} (hs : xs.Pairwise (· < ·)) (key : Int) :
    ∀ (i : Nat) (x : Int), xs[i]? = some x → (x < key ↔ i < rank xs key) :=
  lt_key_iff_lt_rank_of_le (pairwise_le_of_lt hs) key

/-- A sorted list holds the key exactly at its rank. -/
theorem getElem?_eq_some_iff_rank {xs : List Int} (hs : xs.Pairwise (· < ·))
    {key : Int} {i : Nat} : xs[i]? = some key ↔ key ∈ xs ∧ i = rank xs key := by
  constructor
  · intro h
    refine ⟨List.mem_of_getElem? h, ?_⟩
    have hge : ¬ i < rank xs key := by
      rw [← lt_key_iff_lt_rank hs key i key h]
      exact lt_irrefl key
    have hlen := (List.getElem?_eq_some_iff.mp h).1
    by_contra hne
    have hlt : rank xs key < i := by omega
    obtain ⟨x, hx⟩ : ∃ x, xs[rank xs key]? = some x :=
      ⟨_, List.getElem?_eq_getElem (by omega)⟩
    have hxk : x < key := lt_of_getElem?_of_lt hs hx h hlt
    exact absurd ((lt_key_iff_lt_rank hs key _ x hx).mp hxk) (lt_irrefl _)
  · rintro ⟨hmem, rfl⟩
    obtain ⟨j, hj, hjk⟩ := List.mem_iff_getElem.mp hmem
    have hj' : xs[j]? = some key := by rw [List.getElem?_eq_getElem hj, hjk]
    have hge : ¬ j < rank xs key := by
      rw [← lt_key_iff_lt_rank hs key j key hj']
      exact lt_irrefl key
    rcases Nat.lt_or_eq_of_le (Nat.not_lt.mp hge) with hlt | heq
    · obtain ⟨x, hx⟩ : ∃ x, xs[rank xs key]? = some x :=
        ⟨_, List.getElem?_eq_getElem (by omega)⟩
      have hxk : x < key := lt_of_getElem?_of_lt hs hx hj' hlt
      exact absurd ((lt_key_iff_lt_rank hs key _ x hx).mp hxk) (lt_irrefl _)
    · rw [heq, hj']

theorem getElem?_rank {xs : List Int} (hs : xs.Pairwise (· < ·)) {key : Int}
    (h : key ∈ xs) : xs[rank xs key]? = some key :=
  (getElem?_eq_some_iff_rank hs).mpr ⟨h, rfl⟩

theorem rank_lt_length {xs : List Int} (hs : xs.Pairwise (· < ·)) {key : Int}
    (h : key ∈ xs) : rank xs key < xs.length :=
  (List.getElem?_eq_some_iff.mp (getElem?_rank hs h)).1

/-- A new key goes to its rank. -/
theorem pairwise_insertIdx_rank {xs : List Int} (hs : xs.Pairwise (· < ·)) {key : Int}
    (h : key ∉ xs) : (xs.insertIdx (rank xs key) key).Pairwise (· < ·) := by
  have hle := rank_le_length xs key
  rw [insertIdx_eq_take_append hle, List.pairwise_append, List.pairwise_cons]
  have htake : ∀ x ∈ xs.take (rank xs key), x < key := by
    intro x hx
    obtain ⟨i, hi, hix⟩ := List.mem_iff_getElem.mp hx
    rw [List.length_take] at hi
    rw [List.getElem_take] at hix
    refine (lt_key_iff_lt_rank hs key i x ?_).mpr (by omega)
    rw [← hix, List.getElem?_eq_getElem]
  have hdrop : ∀ x ∈ xs.drop (rank xs key), key < x := by
    intro x hx
    obtain ⟨i, hi, hix⟩ := List.mem_iff_getElem.mp hx
    rw [List.length_drop] at hi
    rw [List.getElem_drop] at hix
    have hget : xs[rank xs key + i]? = some x := by
      rw [← hix, List.getElem?_eq_getElem]
    have hnlt : ¬ x < key := by
      rw [lt_key_iff_lt_rank hs key _ x hget]
      omega
    have hne : x ≠ key := fun he => h (he ▸ List.mem_of_getElem? hget)
    omega
  refine ⟨hs.sublist (List.take_sublist _ _), ⟨hdrop, hs.sublist (List.drop_sublist _ _)⟩, ?_⟩
  intro x hx y hy
  rcases List.mem_cons.mp hy with rfl | hy
  · exact htake x hx
  · exact lt_trans (htake x hx) (hdrop y hy)

theorem rank_insertIdx_self (xs : List Int) (key : Int) :
    rank (xs.insertIdx (rank xs key) key) key = rank xs key := by
  have hperm := List.perm_insertIdx key xs (rank_le_length xs key)
  rw [rank, hperm.countP_eq, List.countP_cons]
  simp [rank]

theorem pairwise_eraseIdx {xs : List Int} (hs : xs.Pairwise (· < ·)) (i : Nat) :
    (xs.eraseIdx i).Pairwise (· < ·) :=
  hs.sublist (List.eraseIdx_sublist _ _)

/-! ## The search over a padded array -/

/-- A strictly sorted list of values below `MAX_VALUE` in front of free space
that holds `MAX_VALUE`. -/
structure Padded (a : List Int) (xs : List Int) (free : Nat) : Prop where
  eq : a = xs ++ List.replicate free MAX_VALUE
  sorted : xs.Pairwise (· < ·)
  small : ∀ x ∈ xs, x < MAX_VALUE

/-- How `Arrays.binarySearch` encodes a rank. -/
def encodeRank (xs : List Int) (key : Int) : Int :=
  if key ∈ xs then rank xs key else -((rank xs key : Int) + 1)

theorem rd_lt_iff {xs : List Int} {n : Nat} {i x : Int}
    (h : rd (xs ++ List.replicate n MAX_VALUE) i = .ok x) :
    0 ≤ i ∧ (i < xs.length ∧ xs[i.toNat]? = some x ∨
      (xs.length : Int) ≤ i ∧ x = MAX_VALUE) := by
  obtain ⟨h0, h1⟩ := rd_eq_ok.mp h
  refine ⟨h0, ?_⟩
  by_cases hlt : i < xs.length
  · rw [List.getElem?_append_left (by omega)] at h1
    exact Or.inl ⟨hlt, h1⟩
  · rw [List.getElem?_append_right (by omega), List.getElem?_replicate] at h1
    split_ifs at h1 with hr
    · exact Or.inr ⟨by omega, by simpa using h1.symm⟩

/-- The search over the whole of a padded array answers the rank of the key
among the values. -/
theorem binarySearch_padded {a xs : List Int} {free : Nat} (hp : Padded a xs free)
    {key : Int} (hkey : key < MAX_VALUE) :
    binarySearch a key = .ok (encodeRank xs key) := by
  have hsorted : ∀ i j x y, (0 : Int) ≤ i → i ≤ j → j < a.length →
      rd a i = .ok x → rd a j = .ok y → x ≤ y := by
    intro i j x y _ hij _ hx hy
    rw [hp.eq] at hx hy
    obtain ⟨_, hx'⟩ := rd_lt_iff hx
    obtain ⟨_, hy'⟩ := rd_lt_iff hy
    rcases hy' with ⟨hj, hy'⟩ | ⟨_, rfl⟩
    · rcases hx' with ⟨_, hx'⟩ | ⟨hi, _⟩
      · rcases eq_or_lt_of_le hij with rfl | hlt
        · rw [hx', Option.some.injEq] at hy'
          omega
        · exact le_of_lt (lt_of_getElem?_of_lt hp.sorted hx' hy' (by omega))
      · omega
    · rcases hx' with ⟨_, hx'⟩ | ⟨_, rfl⟩
      · exact le_of_lt (hp.small x (List.mem_of_getElem? hx'))
      · exact le_refl _
  obtain ⟨r, hr, hans⟩ := searchLoop_spec a key 0 a.length
    (le_refl _) (le_refl _) hsorted (a.length + 1) 0 (a.length - 1)
    (le_refl _) (by omega) (by omega) (by omega) (by intro i x h0 h1; omega)
    (by intro i x h0 h1; omega)
  rw [binarySearch, hr]
  congr 1
  unfold encodeRank
  rcases hans with ⟨h0, _, _, hfound⟩ | ⟨ins, rfl, hins0, hins1, hlow, hhigh⟩
  · rw [hp.eq] at hfound
    obtain ⟨_, hf⟩ := rd_lt_iff hfound
    rcases hf with ⟨_, hf⟩ | ⟨_, hf⟩
    · obtain ⟨hmem, hrank⟩ := (getElem?_eq_some_iff_rank hp.sorted).mp hf
      rw [if_pos hmem]
      omega
    · omega
  · have hnot : key ∉ xs := by
      intro hmem
      have hget := getElem?_rank hp.sorted hmem
      have hrd : rd a (rank xs key : Int) = .ok key := by
        rw [hp.eq, rd_append_left (by have := rank_lt_length hp.sorted hmem; omega)]
        exact rd_of_getElem? hget
      have hb := rd_bounds hrd
      rcases lt_or_ge (rank xs key : Int) ins with hlt | hge
      · exact absurd (hlow _ _ hb.1 hlt hrd) (lt_irrefl _)
      · exact absurd (hhigh _ _ hge hb.2 hrd) (lt_irrefl _)
    have hle := rank_le_length xs key
    have hlen : a.length = xs.length + free := by rw [hp.eq]; simp
    have hins : ins = rank xs key := by
      rcases lt_trichotomy ins (rank xs key : Int) with hlt | heq | hgt
      · obtain ⟨x, hx⟩ := exists_rd (a := xs) hins0 (by omega)
        have hxa : rd a ins = .ok x := by rw [hp.eq, rd_append_left (by omega), hx]
        have hxk := hhigh ins x (le_refl _) (by omega) hxa
        have := (lt_key_iff_lt_rank hp.sorted key ins.toNat x (rd_eq_ok.mp hx).2).mpr (by omega)
        omega
      · exact heq
      · obtain ⟨x, hx⟩ := exists_rd (a := a) (i := (rank xs key : Int)) (by omega) (by omega)
        have hxk := hlow _ x (by omega) hgt hx
        rw [hp.eq] at hx
        obtain ⟨_, hx'⟩ := rd_lt_iff hx
        rcases hx' with ⟨_, hx'⟩ | ⟨_, rfl⟩
        · rw [Int.toNat_natCast] at hx'
          exact absurd ((lt_key_iff_lt_rank hp.sorted key _ x hx').mp hxk) (lt_irrefl _)
        · omega
    rw [if_neg hnot, hins]

/-- The search in a sorted range that holds the key finds it. -/
theorem binarySearchRange_mem {a : List Int} {lo hi : Nat} {key : Int}
    (hlh : lo ≤ hi) (hhi : hi ≤ a.length)
    (hs : ((a.take hi).drop lo).Pairwise (· ≤ ·)) (hmem : key ∈ (a.take hi).drop lo) :
    ∃ r : Nat, binarySearchRange a lo hi key = .ok (r : Int) ∧ lo ≤ r ∧ r < hi ∧
      a[r]? = some key := by
  have hget : ∀ i : Nat, lo ≤ i → i < hi → ((a.take hi).drop lo)[i - lo]? = a[i]? := by
    intro i h0 h1
    rw [List.getElem?_drop, List.getElem?_take_of_lt (by omega)]
    congr 1
    omega
  have hsorted : ∀ i j x y, (lo : Int) ≤ i → i ≤ j → j < (hi : Int) →
      rd a i = .ok x → rd a j = .ok y → x ≤ y := by
    intro i j x y hi0 hij hj hx hy
    have hx' := (rd_eq_ok.mp hx).2
    have hy' := (rd_eq_ok.mp hy).2
    rw [← hget i.toNat (by omega) (by omega)] at hx'
    rw [← hget j.toNat (by omega) (by omega)] at hy'
    rcases eq_or_lt_of_le hij with rfl | hlt
    · rw [hx', Option.some.injEq] at hy'
      omega
    · obtain ⟨h1, h2⟩ := List.getElem?_eq_some_iff.mp hx'
      obtain ⟨h3, h4⟩ := List.getElem?_eq_some_iff.mp hy'
      rw [← h2, ← h4]
      exact List.pairwise_iff_getElem.mp hs _ _ h1 h3 (by omega)
  obtain ⟨r, hr, hans⟩ := searchLoop_spec a key lo hi
    (by omega) (by omega) hsorted (a.length + 1) lo (hi - 1) (le_refl _) (by omega)
    (by omega) (by omega) (by intro i x h0 h1; omega) (by intro i x h0 h1; omega)
  have hrun : binarySearchRange a lo hi key = .ok r := by
    rw [binarySearchRange, if_neg (by omega), hr]
  rcases hans with ⟨h0, h1, h2, hfound⟩ | ⟨ins, rfl, hins0, hins1, hlow, hhigh⟩
  · refine ⟨r.toNat, by rw [hrun]; congr 1; omega, by omega, by omega, ?_⟩
    exact (rd_eq_ok.mp hfound).2
  · exfalso
    obtain ⟨j, hj, hjk⟩ := List.mem_iff_getElem.mp hmem
    rw [List.length_drop, List.length_take] at hj
    have hj' : a[lo + j]? = some key := by
      rw [← hget (lo + j) (by omega) (by omega), Nat.add_sub_cancel_left,
        List.getElem?_eq_getElem (by simp; omega), hjk]
    have hrd : rd a ((lo + j : Nat) : Int) = .ok key := rd_of_getElem? hj'
    rcases lt_or_ge ((lo + j : Nat) : Int) ins with hlt | hge
    · exact absurd (hlow _ _ (by omega) hlt hrd) (lt_irrefl _)
    · exact absurd (hhigh _ _ hge (by omega) hrd) (lt_irrefl _)

/-! ## Tables in parallel arrays -/

section assoc

variable {β : Type}

/-- The data of the key `k` when the keys are `xs` and their data `ys`. -/
def assoc : List Int → List β → Int → Option β
  | x :: xs, y :: ys, k => if k = x then some y else assoc xs ys k
  | _, _, _ => none

theorem assoc_of_not_mem {xs : List Int} {ys : List β} {k : Int} (h : k ∉ xs) :
    assoc xs ys k = none := by
  induction xs generalizing ys with
  | nil => rfl
  | cons x xs ih =>
    cases ys with
    | nil => rfl
    | cons y ys =>
      rw [List.mem_cons, not_or] at h
      rw [assoc, if_neg h.1, ih h.2]

theorem exists_assoc_of_mem {xs : List Int} {ys : List β} (hlen : ys.length = xs.length)
    {k : Int} (h : k ∈ xs) : ∃ v, assoc xs ys k = some v := by
  induction xs generalizing ys with
  | nil => simp at h
  | cons x xs ih =>
    cases ys with
    | nil => simp at hlen
    | cons y ys =>
      by_cases hk : k = x
      · exact ⟨y, by rw [assoc, if_pos hk]⟩
      · rw [assoc, if_neg hk]
        exact ih (by simpa using hlen) ((List.mem_cons.mp h).resolve_left hk)

theorem mem_of_assoc {xs : List Int} {ys : List β} {k : Int} {v : β}
    (h : assoc xs ys k = some v) : k ∈ xs := by
  by_contra hk
  rw [assoc_of_not_mem hk] at h
  simp at h

theorem assoc_of_getElem? {xs : List Int} {ys : List β} (hnd : xs.Nodup) {n : Nat}
    {k : Int} (h : xs[n]? = some k) : assoc xs ys k = ys[n]? := by
  induction xs generalizing ys n with
  | nil => simp at h
  | cons x xs ih =>
    obtain ⟨hx, hxs⟩ := List.nodup_cons.mp hnd
    cases ys with
    | nil => rw [assoc]; simp; simp
    | cons y ys =>
      cases n with
      | zero =>
        obtain rfl : x = k := by simpa using h
        simp [assoc]
      | succ n =>
        have hk : xs[n]? = some k := by simpa using h
        have hne : k ≠ x := fun he => hx (he ▸ List.mem_of_getElem? hk)
        rw [assoc, if_neg hne, ih hxs hk]
        simp

theorem assoc_insertIdx {xs : List Int} {ys : List β} (hlen : ys.length = xs.length)
    {n : Nat} (hn : n ≤ xs.length) {k : Int} (hk : k ∉ xs) (v : β) (j : Int) :
    assoc (xs.insertIdx n k) (ys.insertIdx n v) j = if j = k then some v else assoc xs ys j := by
  induction xs generalizing ys n with
  | nil =>
    obtain rfl : ys = [] := by simpa using hlen
    obtain rfl : n = 0 := by simpa using hn
    simp [assoc]
  | cons x xs ih =>
    cases ys with
    | nil => simp at hlen
    | cons y ys =>
      rw [List.mem_cons, not_or] at hk
      cases n with
      | zero => simp [assoc]
      | succ n =>
        simp only [List.insertIdx_succ_cons, assoc]
        rw [ih (by simpa using hlen) (by simpa using hn) hk.2]
        by_cases hjx : j = x
        · rw [if_pos hjx, if_pos hjx, if_neg (by rintro rfl; exact hk.1 hjx)]
        · rw [if_neg hjx, if_neg hjx]

theorem assoc_set {xs : List Int} {ys : List β} (hlen : ys.length = xs.length)
    (hnd : xs.Nodup) {n : Nat} {k : Int} (h : xs[n]? = some k) (v : β) (j : Int) :
    assoc xs (ys.set n v) j = if j = k then some v else assoc xs ys j := by
  induction xs generalizing ys n with
  | nil => simp at h
  | cons x xs ih =>
    obtain ⟨hx, hxs⟩ := List.nodup_cons.mp hnd
    cases ys with
    | nil => simp at hlen
    | cons y ys =>
      cases n with
      | zero =>
        obtain rfl : x = k := by simpa using h
        by_cases hj : j = x <;> simp [assoc, hj]
      | succ n =>
        have hk : xs[n]? = some k := by simpa using h
        have hne : k ≠ x := fun he => hx (he ▸ List.mem_of_getElem? hk)
        simp only [List.set_cons_succ, assoc]
        rw [ih (by simpa using hlen) hxs hk]
        by_cases hjx : j = x
        · rw [if_pos hjx, if_pos hjx, if_neg (by rintro rfl; exact hne hjx)]
        · rw [if_neg hjx, if_neg hjx]

theorem assoc_eraseIdx {xs : List Int} {ys : List β} (hlen : ys.length = xs.length)
    (hnd : xs.Nodup) {n : Nat} {k : Int} (h : xs[n]? = some k) (j : Int) :
    assoc (xs.eraseIdx n) (ys.eraseIdx n) j = if j = k then none else assoc xs ys j := by
  induction xs generalizing ys n with
  | nil => simp at h
  | cons x xs ih =>
    obtain ⟨hx, hxs⟩ := List.nodup_cons.mp hnd
    cases ys with
    | nil => simp at hlen
    | cons y ys =>
      cases n with
      | zero =>
        obtain rfl : x = k := by simpa using h
        by_cases hj : j = x
        · rw [if_pos hj, hj]
          exact assoc_of_not_mem hx
        · simp [assoc, hj]
      | succ n =>
        have hk : xs[n]? = some k := by simpa using h
        have hne : k ≠ x := fun he => hx (he ▸ List.mem_of_getElem? hk)
        simp only [List.eraseIdx_cons_succ, assoc]
        rw [ih (by simpa using hlen) hxs hk]
        by_cases hjx : j = x
        · rw [if_pos hjx, if_pos hjx, if_neg (by rintro rfl; exact hne hjx)]
        · rw [if_neg hjx, if_neg hjx]

theorem nodup_of_sorted {xs : List Int} (hs : xs.Pairwise (· < ·)) : xs.Nodup :=
  hs.imp (fun h => ne_of_lt h)

/-- Reading the data of a key at the index that the search answers. -/
theorem rd_encodeRank {xs : List Int} (hs : xs.Pairwise (· < ·)) {ys rest : List β}
    (hlen : ys.length = xs.length) {key : Int} {v : β} (h : assoc xs ys key = some v) :
    rd (ys ++ rest) (encodeRank xs key) = .ok v := by
  have hmem := mem_of_assoc h
  have hlt := rank_lt_length hs hmem
  rw [encodeRank, if_pos hmem, rd_append_left (by omega)]
  refine rd_of_getElem? ?_
  rw [← assoc_of_getElem? (nodup_of_sorted hs) (getElem?_rank hs hmem), h]

/-- Writing the data of a key at the index that the search answers. -/
theorem wr_encodeRank {xs : List Int} (hs : xs.Pairwise (· < ·)) {ys rest : List β}
    (hlen : ys.length = xs.length) {key : Int} (hmem : key ∈ xs) (v : β) :
    wr (ys ++ rest) (encodeRank xs key) v = .ok (ys.set (rank xs key) v ++ rest) := by
  have hlt := rank_lt_length hs hmem
  rw [encodeRank, if_pos hmem, wr_of_bounds _ (by omega) (by simp; omega), Int.toNat_natCast,
    List.set_append_left _ _ (by omega)]

theorem assoc_set_rank {xs : List Int} (hs : xs.Pairwise (· < ·)) {ys : List β}
    (hlen : ys.length = xs.length) {key : Int} (hmem : key ∈ xs) (v : β) (j : Int) :
    assoc xs (ys.set (rank xs key) v) j = if j = key then some v else assoc xs ys j :=
  assoc_set hlen (nodup_of_sorted hs) (getElem?_rank hs hmem) v j

theorem assoc_insertIdx_rank {xs : List Int} {ys : List β} (hlen : ys.length = xs.length)
    {key : Int} (hk : key ∉ xs) (v : β) (j : Int) :
    assoc (xs.insertIdx (rank xs key) key) (ys.insertIdx (rank xs key) v) j
      = if j = key then some v else assoc xs ys j :=
  assoc_insertIdx hlen (rank_le_length xs key) hk v j

theorem mem_insertIdx_rank {xs : List Int} {key j : Int} :
    j ∈ xs.insertIdx (rank xs key) key ↔ j = key ∨ j ∈ xs :=
  List.mem_insertIdx (rank_le_length xs key)

/-- A new value among those of a padded array. -/
theorem Padded.insert {a xs : List Int} {free : Nat} (hp : Padded a xs free) {key : Int}
    (hkey : key < MAX_VALUE) (hnot : key ∉ xs) (free' : Nat) :
    Padded (xs.insertIdx (rank xs key) key ++ List.replicate free' MAX_VALUE)
      (xs.insertIdx (rank xs key) key) free' := by
  refine ⟨rfl, pairwise_insertIdx_rank hp.sorted hnot, ?_⟩
  intro x hx
  rcases mem_insertIdx_rank.mp hx with rfl | hx
  · exact hkey
  · exact hp.small x hx

end assoc

end Java
