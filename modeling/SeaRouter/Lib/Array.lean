import SeaRouter.Lib.Run

/-!
# Arrays of a Java program

An `int` is an `Int` and an array is the list of its elements.  A read or a
write outside of the array throws, and so does a block copy that leaves one of
its two arrays.

An array that holds `count` values has free space behind them.  The lemmas
below therefore speak of an array as `xs ++ rest`, where `xs` are the values:
`shiftInsert_eq` and `shiftRemove_eq` say that the block copies with which
such an array makes room for a value or closes the gap of one are
`List.insertIdx` and `List.eraseIdx` on the values.
-/

namespace Java

variable {α β : Type}

/-- `Integer.MAX_VALUE`. -/
def MAX_VALUE : Int := 2147483647

/-- The read `a[i]`. -/
def rd (a : List α) (i : Int) : Run α :=
  if 0 ≤ i then
    match a[i.toNat]? with
    | some x => .ok x
    | none => .error .indexOutOfBounds
  else .error .indexOutOfBounds

/-- The write `a[i] = x`. -/
def wr (a : List α) (i : Int) (x : α) : Run (List α) :=
  if 0 ≤ i ∧ i < a.length then .ok (a.set i.toNat x) else .error .indexOutOfBounds

/-- The elements `a[lo]`, ..., `a[hi - 1]` that a `for` loop over the indices
reads.  The loop reads nothing when `hi ≤ lo`. -/
def slice (a : List α) (lo hi : Int) : Run (List α) :=
  if hi ≤ lo then .ok []
  else if 0 ≤ lo ∧ hi ≤ a.length then .ok ((a.take hi.toNat).drop lo.toNat)
  else .error .indexOutOfBounds

/-- The indices `lo`, ..., `hi - 1` of a `for` loop. -/
def indices (lo hi : Int) : List Int :=
  (List.range (hi - lo).toNat).map (fun k : Nat => lo + (k : Int))

/-- `System.arraycopy(src, srcPos, dst, dstPos, len)`.  The source is read
before the destination is written, also when the two are one array. -/
def arraycopy (src : List α) (srcPos : Int) (dst : List α) (dstPos len : Int) :
    Run (List α) :=
  if 0 ≤ srcPos ∧ 0 ≤ dstPos ∧ 0 ≤ len ∧ srcPos + len ≤ src.length ∧
      dstPos + len ≤ dst.length then
    .ok (dst.take dstPos.toNat ++ (src.drop srcPos.toNat).take len.toNat ++
      dst.drop (dstPos + len).toNat)
  else .error .indexOutOfBounds

/-- `Arrays.copyOf` to a larger length: the new elements hold `fill`. -/
def growBy (a : List α) (k : Int) (fill : α) : List α :=
  a ++ List.replicate k.toNat fill

/-! ## Reads and writes -/

theorem rd_ofNat (a : List α) (n : Nat) :
    rd a (n : Int) = match a[n]? with
      | some x => .ok x
      | none => .error .indexOutOfBounds := by
  simp [rd]

theorem rd_eq_ok {a : List α} {i : Int} {x : α} :
    rd a i = .ok x ↔ 0 ≤ i ∧ a[i.toNat]? = some x := by
  unfold rd
  split_ifs with h
  · cases ha : a[i.toNat]? <;> simp [h]
  · simp [h]

theorem rd_of_getElem? {a : List α} {n : Nat} {x : α} (h : a[n]? = some x) :
    rd a (n : Int) = .ok x := by
  rw [rd_eq_ok]
  exact ⟨by omega, by simpa using h⟩

/-- Behind the array there is nothing to read. -/
theorem rd_of_length_le {a : List α} {i : Int} (h : a.length ≤ i) :
    rd a i = .error .indexOutOfBounds := by
  have hnone : a[i.toNat]? = none := List.getElem?_eq_none (by omega)
  rw [rd, if_pos (by omega), hnone]

theorem getElem?_of_rd {a : List α} {n : Nat} {x : α} (h : rd a (n : Int) = .ok x) :
    a[n]? = some x := by
  simpa using (rd_eq_ok.mp h).2

theorem rd_bounds {a : List α} {i : Int} {x : α} (h : rd a i = .ok x) :
    0 ≤ i ∧ i < a.length := by
  obtain ⟨h0, h1⟩ := rd_eq_ok.mp h
  have := (List.getElem?_eq_some_iff.mp h1).1
  omega

theorem exists_rd {a : List α} {i : Int} (h0 : 0 ≤ i) (h1 : i < a.length) :
    ∃ x, rd a i = .ok x := by
  have hlt : i.toNat < a.length := by omega
  exact ⟨a[i.toNat], rd_eq_ok.mpr ⟨h0, List.getElem?_eq_getElem hlt⟩⟩

theorem mem_of_rd {a : List α} {i : Int} {x : α} (h : rd a i = .ok x) : x ∈ a :=
  List.mem_of_getElem? (rd_eq_ok.mp h).2

theorem exists_rd_of_mem {a : List α} {x : α} (h : x ∈ a) :
    ∃ i : Int, 0 ≤ i ∧ i < a.length ∧ rd a i = .ok x := by
  obtain ⟨n, hn, hx⟩ := List.mem_iff_getElem.mp h
  refine ⟨n, by omega, by omega, rd_of_getElem? ?_⟩
  rw [List.getElem?_eq_getElem hn, hx]

theorem rd_append_left {a b : List α} {i : Int} (h : i < a.length) :
    rd (a ++ b) i = rd a i := by
  unfold rd
  split_ifs with h0
  · rw [List.getElem?_append_left (by omega)]
  · rfl

/-- The element behind the values. -/
theorem rd_append_length (xs rest : List α) (x : α) :
    rd (xs ++ x :: rest) (xs.length : Int) = .ok x :=
  rd_of_getElem? (by simp)

theorem wr_eq_ok {a b : List α} {i : Int} {x : α} :
    wr a i x = .ok b ↔ (0 ≤ i ∧ i < a.length) ∧ a.set i.toNat x = b := by
  unfold wr
  split_ifs with h <;> simp [h]

theorem wr_of_bounds {a : List α} {i : Int} (x : α) (h0 : 0 ≤ i) (h1 : i < a.length) :
    wr a i x = .ok (a.set i.toNat x) := by
  rw [wr, if_pos ⟨h0, h1⟩]

theorem length_of_wr {a b : List α} {i : Int} {x : α} (h : wr a i x = .ok b) :
    b.length = a.length := by
  rw [← (wr_eq_ok.mp h).2, List.length_set]

theorem rd_set {a : List α} {i j : Int} {x : α} (h0 : 0 ≤ i) (h1 : i < a.length) :
    rd (a.set i.toNat x) j = if j = i then .ok x else rd a j := by
  unfold rd
  by_cases hj : 0 ≤ j
  · rw [if_pos hj, if_pos hj]
    by_cases hij : j = i
    · subst hij
      rw [if_pos rfl, List.getElem?_set_self (by omega)]
    · rw [if_neg hij, List.getElem?_set_ne (by omega)]
  · rw [if_neg hj, if_neg hj, if_neg (by omega)]

theorem rd_of_wr {a b : List α} {i j : Int} {x : α} (h : wr a i x = .ok b) :
    rd b j = if j = i then .ok x else rd a j := by
  obtain ⟨⟨h0, h1⟩, rfl⟩ := wr_eq_ok.mp h
  exact rd_set h0 h1

/-! ## Arrays given by a function of the index -/

theorem rd_tabulate (f : Nat → α) {n i : Nat} (h : i < n) :
    rd ((List.range n).map f) (i : Int) = .ok (f i) := by
  apply rd_of_getElem?
  rw [List.getElem?_map, List.getElem?_range h]
  rfl

theorem wr_tabulate (f : Nat → α) {n i : Nat} (h : i < n) (x : α) :
    wr ((List.range n).map f) (i : Int) x
      = .ok ((List.range n).map (Function.update f i x)) := by
  rw [wr_of_bounds x (by omega) (by simpa using h), Int.toNat_natCast]
  congr 1
  apply List.ext_getElem?
  intro j
  rw [List.getElem?_set, List.getElem?_map, List.getElem?_map, List.length_map, List.length_range]
  by_cases hij : i = j
  · subst hij
    simp [h]
  · rw [if_neg hij]
    by_cases hj : j < n
    · simp [hj, Function.update_of_ne (Ne.symm hij)]
    · rw [List.getElem?_eq_none (by simpa using hj)]
      rfl

/-! ## Slices -/

theorem mem_indices {lo hi i : Int} : i ∈ indices lo hi ↔ lo ≤ i ∧ i < hi := by
  unfold indices
  rw [List.mem_map]
  constructor
  · rintro ⟨k, hk, rfl⟩
    rw [List.mem_range] at hk
    omega
  · rintro ⟨h1, h2⟩
    exact ⟨(i - lo).toNat, by rw [List.mem_range]; omega, by omega⟩

theorem indices_succ {lo : Int} {k : Nat} :
    indices lo (lo + ((k + 1 : Nat) : Int)) = indices lo (lo + (k : Int)) ++ [lo + (k : Int)] := by
  have h1 : (lo + ((k + 1 : Nat) : Int) - lo).toNat = k + 1 := by omega
  have h2 : (lo + (k : Int) - lo).toNat = k := by omega
  rw [indices, indices, h1, h2, List.range_succ, List.map_append]
  rfl

theorem indices_zero_succ (n : Nat) :
    indices 0 ((n + 1 : Nat) : Int) = indices 0 (n : Int) ++ [(n : Int)] := by
  have hsucc : indices 0 (0 + ((n + 1 : Nat) : Int))
      = indices 0 (0 + (n : Int)) ++ [0 + (n : Int)] := indices_succ
  simpa only [zero_add] using hsucc

theorem indices_cons {lo hi : Int} (h : lo < hi) : indices lo hi = lo :: indices (lo + 1) hi := by
  have hlen : (hi - lo).toNat = (hi - (lo + 1)).toNat + 1 := by omega
  rw [indices, indices, hlen, List.range_succ_eq_map, List.map_cons, List.map_map]
  congr 1
  · simp
  · apply List.map_congr_left
    intro k _
    simp only [Function.comp_apply, Nat.succ_eq_add_one]
    push_cast
    ring

theorem indices_eq_nil {lo hi : Int} (h : hi ≤ lo) : indices lo hi = [] := by
  rw [indices, show (hi - lo).toNat = 0 by omega]
  rfl

theorem length_indices_zero (n : Int) : (indices 0 n).length = n.toNat := by
  simp [indices]

/-- A `for` loop over the indices from `lo` to `hi - 1`. -/
theorem foldlM_indices {β : Type} {f : β → Int → Run β} {P : Nat → β → Prop} {lo hi : Nat}
    (hle : lo ≤ hi) {b : β} (h0 : P lo b)
    (hstep : ∀ j b, lo ≤ j → j < hi → P j b → ∃ b', f b (j : Int) = .ok b' ∧ P (j + 1) b') :
    ∃ b', (indices lo hi).foldlM f b = .ok b' ∧ P hi b' := by
  obtain ⟨k, rfl⟩ : ∃ k, hi = lo + k := ⟨hi - lo, by omega⟩
  induction k with
  | zero =>
    refine ⟨b, ?_, h0⟩
    simp [indices]
  | succ k ih =>
    obtain ⟨b₁, hrun, hP⟩ := ih (by omega) (fun j b h1 h2 => hstep j b h1 (by omega))
    obtain ⟨b₂, hb₂, hP₂⟩ := hstep (lo + k) b₁ (by omega) (by omega) hP
    refine ⟨b₂, ?_, hP₂⟩
    have hcast : ((lo + (k + 1) : Nat) : Int) = (lo : Int) + ((k + 1 : Nat) : Int) := by push_cast; ring
    have hcast' : ((lo + k : Nat) : Int) = (lo : Int) + (k : Int) := by push_cast; ring
    rw [hcast'] at hrun hb₂
    rw [hcast, indices_succ, List.foldlM_append, hrun, ok_bind, List.foldlM_cons, hb₂, ok_bind]
    rfl

/-- A loop that fills a new array index by index. -/
theorem mapM_indices {β : Type} {f : Int → Run β} {l : List β}
    (h : ∀ (i : Nat) x, l[i]? = some x → f i = .ok x) :
    (indices 0 l.length).mapM f = .ok l := by
  induction l using List.reverseRecOn with
  | nil => rfl
  | append_singleton l x ih =>
    have hinit : (indices 0 l.length).mapM f = .ok l := by
      apply ih
      intro i y hy
      apply h i y
      rw [List.getElem?_append_left (List.getElem?_eq_some_iff.mp hy).1, hy]
    have hlast : f (l.length : Int) = .ok x := h l.length x (by simp)
    rw [List.length_append, List.length_singleton, indices_zero_succ, List.mapM_append, hinit,
      ok_bind]
    simp [hlast]

/-- What a loop that fills a new array leaves in it. -/
theorem rd_of_mapM_indices {β : Type} {f : Int → Run β} {n : Nat} {r : List β}
    (h : (indices 0 n).mapM f = .ok r) :
    r.length = n ∧ ∀ i y, rd r i = .ok y → f i = .ok y := by
  induction n generalizing r with
  | zero =>
    obtain rfl : [] = r := by simpa [indices] using h
    exact ⟨rfl, fun i y hy => by simp [rd] at hy⟩
  | succ n ih =>
    rw [indices_zero_succ, List.mapM_append, bind_eq_ok] at h
    obtain ⟨pre, hpre, h⟩ := h
    obtain ⟨hlen, hread⟩ := ih hpre
    simp only [List.mapM_cons, List.mapM_nil, bind_eq_ok, pure_eq_ok, Except.ok.injEq] at h
    obtain ⟨_, ⟨x, hx, _, rfl, rfl⟩, rfl⟩ := h
    refine ⟨by simp [hlen], ?_⟩
    intro i y hy
    have hbounds := rd_bounds hy
    rw [List.length_append, List.length_singleton] at hbounds
    by_cases hi : i < pre.length
    · rw [rd_append_left hi] at hy
      exact hread i y hy
    · obtain rfl : i = n := by omega
      rw [← hlen, rd_append_length, Except.ok.injEq] at hy
      rw [← hy]
      exact hx

theorem slice_zero {a : List α} {n : Nat} (h : n ≤ a.length) :
    slice a 0 n = .ok (a.take n) := by
  unfold slice
  split_ifs with h0 h1
  · have : n = 0 := by omega
    simp [this]
  · simp
  · omega

theorem slice_eq {a : List α} {lo hi : Nat} (h : lo ≤ hi) (hh : hi ≤ a.length) :
    slice a lo hi = .ok ((a.take hi).drop lo) := by
  unfold slice
  split_ifs with h0 h1
  · have : lo = hi := by omega
    subst this
    rw [List.drop_take_self]
  · simp
  · omega

theorem slice_append {xs rest : List α} : slice (xs ++ rest) 0 xs.length = .ok xs := by
  rw [slice_zero (by simp)]
  simp

/-! ## Making room and closing gaps -/

/-- The insertion of `x` at `idx` into an array with `count` values: one block
copy and one write. -/
def shiftInsert (a : List α) (idx count : Int) (x : α) : Run (List α) := do
  let b ← arraycopy a idx a (idx + 1) (count - idx)
  wr b idx x

/-- The block copy that closes the gap at `idx` of an array with `count`
values left. -/
def shiftRemove (a : List α) (idx count : Int) : Run (List α) :=
  arraycopy a (idx + 1) a idx (count - idx)

theorem length_of_arraycopy {src dst b : List α} {srcPos dstPos len : Int}
    (h : arraycopy src srcPos dst dstPos len = .ok b) : b.length = dst.length := by
  unfold arraycopy at h
  split_ifs at h with hb
  rw [Except.ok.injEq] at h
  rw [← h]
  simp only [List.length_append, List.length_take, List.length_drop]
  omega

theorem length_of_shiftInsert {a b : List α} {idx count : Int} {x : α}
    (h : shiftInsert a idx count x = .ok b) : b.length = a.length := by
  unfold shiftInsert at h
  rw [bind_eq_ok] at h
  obtain ⟨c, hc, hb⟩ := h
  rw [length_of_wr hb, length_of_arraycopy hc]

theorem length_of_shiftRemove {a b : List α} {idx count : Int}
    (h : shiftRemove a idx count = .ok b) : b.length = a.length :=
  length_of_arraycopy h

theorem insertIdx_eq_take_append {xs : List α} {n : Nat} (hn : n ≤ xs.length) (x : α) :
    xs.insertIdx n x = xs.take n ++ x :: xs.drop n := by
  induction xs generalizing n with
  | nil =>
    obtain rfl : n = 0 := by simpa using hn
    rfl
  | cons y ys ih =>
    cases n with
    | zero => rfl
    | succ n => simp [ih (by simpa using hn)]

/-- The block copy with which values in front of free space make room for one
more; what it leaves at `n` is not specified. -/
theorem arraycopy_open (xs : List α) (y : α) (rest : List α) {n : Nat} (hn : n ≤ xs.length) :
    ∃ z, arraycopy (xs ++ y :: rest) n (xs ++ y :: rest) (n + 1) (xs.length - n)
      = .ok (xs.insertIdx n z ++ rest) := by
  have hlen : ((xs.length : Int) - n).toNat = (xs.drop n).length := by
    rw [List.length_drop]
    omega
  have hend : ((n : Int) + 1 + (xs.length - n)).toNat = xs.length + 1 := by omega
  have hpos : ((n : Int) + 1).toNat = n + 1 := by omega
  have hlt : n < (xs ++ y :: rest).length := by
    rw [List.length_append, List.length_cons]
    omega
  refine ⟨(xs ++ y :: rest)[n], ?_⟩
  rw [arraycopy, if_pos (by simp; omega), hlen, hend, hpos, insertIdx_eq_take_append hn,
    Int.toNat_natCast, List.drop_append_of_le_length hn, List.take_left' rfl,
    List.take_succ_eq_append_getElem hlt, List.take_append_of_le_length hn]
  congr 1
  rw [List.drop_append]
  simp

/-- Values in front of free space make room for one more by `insertIdx`. -/
theorem shiftInsert_eq (xs : List α) (y : α) (rest : List α) {n : Nat}
    (hn : n ≤ xs.length) (x : α) :
    shiftInsert (xs ++ y :: rest) n xs.length x = .ok (xs.insertIdx n x ++ rest) := by
  obtain ⟨z, hcopy⟩ := arraycopy_open xs y rest hn
  have hlen : (xs.insertIdx n z).length = xs.length + 1 := List.length_insertIdx_of_le_length hn z
  unfold shiftInsert
  rw [hcopy, ok_bind, wr_of_bounds _ (by omega) (by simp; omega), Int.toNat_natCast,
    List.set_append_left _ _ (by omega), insertIdx_eq_take_append hn,
    insertIdx_eq_take_append hn, List.set_append_right _ _ (by simp)]
  simp [Nat.min_eq_left hn]

/-- Values in front of free space close a gap by `eraseIdx`; the last value is
left behind them. -/
theorem shiftRemove_eq (xs : List α) (rest : List α) {n : Nat} (hn : n < xs.length) :
    ∃ y, shiftRemove (xs ++ rest) n ((xs.length : Int) - 1)
      = .ok (xs.eraseIdx n ++ y :: rest) := by
  have hlen : ((xs.length : Int) - 1 - n).toNat = (xs.drop (n + 1)).length := by
    rw [List.length_drop]
    omega
  have hend : ((n : Int) + ((xs.length : Int) - 1 - n)).toNat = xs.length - 1 := by omega
  have hpos : ((n : Int) + 1).toNat = n + 1 := by omega
  refine ⟨xs.getLast (by intro h; simp [h] at hn), ?_⟩
  rw [shiftRemove, arraycopy, if_pos (by simp; omega), hlen, hend, hpos, Int.toNat_natCast,
    List.eraseIdx_eq_take_drop_succ]
  congr 1
  rw [List.drop_append_of_le_length hn, List.take_left' rfl,
    List.take_append_of_le_length (Nat.le_of_lt hn)]
  congr 1
  rw [List.drop_append_of_le_length (by omega), List.drop_length_sub_one (by
    rintro rfl
    simp at hn)]
  simp

/-- A block copy from the front of an array into the free end of another one. -/
theorem arraycopy_fill (x : α) (xs src : List α) {n k : Nat} (h : k ≤ n) (hsrc : k ≤ src.length) :
    arraycopy src 0 (xs ++ List.replicate n x) xs.length k =
      .ok (xs ++ src.take k ++ List.replicate (n - k) x) := by
  have hb : (0 : Int) ≤ 0 ∧ 0 ≤ (xs.length : Int) ∧ 0 ≤ (k : Int) ∧ 0 + (k : Int) ≤ src.length ∧
      (xs.length : Int) + k ≤ (xs ++ List.replicate n x).length := by
    rw [List.length_append, List.length_replicate]
    omega
  have hidx : ((xs.length : Int) + k).toNat = xs.length + k := by omega
  rw [arraycopy, if_pos hb, hidx]
  simp [List.drop_append]

/-- The next write into an array that is filled from the front. -/
theorem wr_fill (x y : α) (xs : List α) (n : Nat) :
    wr (xs ++ List.replicate (n + 1) x) xs.length y = .ok (xs ++ [y] ++ List.replicate n x) := by
  rw [wr_of_bounds y (by omega) (by simp), Int.toNat_natCast,
    List.set_append_right _ _ (le_refl _), Nat.sub_self, List.replicate_succ, List.set_cons_zero]
  simp

end Java
