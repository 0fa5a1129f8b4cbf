import SeaRouter.Lib.Array

/-!
# Rows in one array

Many short arrays can be kept in one: the rows follow each other, and an array
of offsets that is longer by one says where each row begins and the one before
it ends.

`IsRows offset data rows` says that the two arrays hold the list `rows`, and
`IsRows.row` finds one of them.  `foldlM_row` is the rule of a loop over the
indices of one row.
-/

namespace Java

variable {α : Type}

/-- The index at which row `v` begins. -/
def rowStart (rows : List (List α)) (v : Nat) : Nat := (rows.take v).flatten.length

theorem rowStart_zero (rows : List (List α)) : rowStart rows 0 = 0 := by
  simp [rowStart]

theorem rowStart_succ {rows : List (List α)} {v : Nat} {row : List α}
    (h : rows[v]? = some row) : rowStart rows (v + 1) = rowStart rows v + row.length := by
  rw [rowStart, rowStart, List.take_add_one, h]
  simp

theorem rowStart_length (rows : List (List α)) :
    rowStart rows rows.length = rows.flatten.length := by
  rw [rowStart, List.take_length]

theorem rowStart_mono (rows : List (List α)) {v w : Nat} (h : v ≤ w) :
    rowStart rows v ≤ rowStart rows w := by
  induction h with
  | refl => exact le_refl _
  | @step w _ ih =>
    cases hrow : rows[w]? with
    | none =>
      have htake : rows.take (w + 1) = rows.take w := by
        rw [List.take_add_one, hrow]
        simp
      rw [rowStart, rowStart, Nat.succ_eq_add_one, htake]
      exact ih
    | some row =>
      rw [Nat.succ_eq_add_one, rowStart_succ hrow]
      omega

/-- A column of a table has the offsets of the table. -/
theorem rowStart_map {β : Type} (f : α → β) (rows : List (List α)) (v : Nat) :
    rowStart (rows.map (List.map f)) v = rowStart rows v := by
  rw [rowStart, rowStart, ← List.map_take, ← List.map_flatten, List.length_map]

/-- The array `data` holds the rows, and maybe more behind them. -/
structure IsRows (offset : List Int) (data : List α) (rows : List (List α)) : Prop where
  length : offset.length = rows.length + 1
  offset : ∀ v : Nat, v ≤ rows.length → rd offset v = .ok (rowStart rows v : Int)
  data : ∃ rest, data = rows.flatten ++ rest

variable {offset : List Int} {data : List α} {rows : List (List α)}

/-- Where the row `v` is. -/
theorem IsRows.row (h : IsRows offset data rows) {v : Nat} {row : List α}
    (hv : rows[v]? = some row) :
    ∃ pre post, data = pre ++ row ++ post ∧ pre.length = rowStart rows v ∧
      rd offset v = .ok (pre.length : Int) ∧
      rd offset ((v : Int) + 1) = .ok ((pre.length + row.length : Nat) : Int) := by
  obtain ⟨hlt, hget⟩ := List.getElem?_eq_some_iff.mp hv
  obtain ⟨rest, hdata⟩ := h.data
  have hsplit : rows = rows.take v ++ row :: rows.drop (v + 1) := by
    rw [← hget, List.getElem_cons_drop, List.take_append_drop]
  refine ⟨(rows.take v).flatten, (rows.drop (v + 1)).flatten ++ rest, ?_, rfl,
    h.offset v (by omega), ?_⟩
  · rw [hdata]
    conv_lhs => rw [hsplit]
    simp
  · have hoff := h.offset (v + 1) (by omega)
    rw [rowStart_succ hv] at hoff
    rw [← Nat.cast_succ, hoff]
    rfl

/-- The elements of row `v` as a loop over its indices reads them. -/
theorem IsRows.slice (h : IsRows offset data rows) {v : Nat} {row : List α}
    (hv : rows[v]? = some row) :
    slice data (rowStart rows v) (rowStart rows (v + 1)) = .ok row := by
  obtain ⟨pre, post, hdata, hpre, _, _⟩ := h.row hv
  rw [slice_eq (rowStart_mono rows (by omega)), rowStart_succ hv, ← hpre, hdata]
  · rw [List.take_left' (by simp), List.drop_left' rfl]
  · rw [rowStart_succ hv, ← hpre, hdata]
    simp

/-- A `for` loop over the indices of a row that begins at `lo`. -/
theorem foldlM_row {β : Type} {l : List α} {f : β → Int → Run β} {P : List α → β → Prop} (lo : Nat)
    {b : β} (h0 : P [] b)
    (hstep : ∀ pre x post b, l = pre ++ x :: post → P pre b →
      ∃ b', f b ((lo + pre.length : Nat) : Int) = .ok b' ∧ P (pre ++ [x]) b') :
    ∃ b', (indices lo ((lo + l.length : Nat) : Int)).foldlM f b = .ok b' ∧ P l b' := by
  obtain ⟨b', hrun, hP⟩ := foldlM_indices (f := f) (P := fun j b => P (l.take (j - lo)) b)
    (Nat.le_add_right lo l.length) (b := b) (by simpa using h0) (by
      intro j b hlo hhi hP
      have hlt : j - lo < l.length := by omega
      obtain ⟨b', hb', hP'⟩ := hstep (l.take (j - lo)) l[j - lo] (l.drop (j - lo + 1)) b
        (by rw [List.getElem_cons_drop, List.take_append_drop]) hP
      rw [List.length_take_of_le (by omega), Nat.add_sub_cancel' hlo] at hb'
      refine ⟨b', hb', ?_⟩
      rw [Nat.sub_add_comm hlo, List.take_add_one, List.getElem?_eq_getElem hlt]
      exact hP')
  refine ⟨b', hrun, ?_⟩
  rw [Nat.add_sub_cancel_left, List.take_length] at hP
  exact hP
end Java
