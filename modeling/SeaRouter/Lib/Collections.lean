import SeaRouter.Lib.Array

/-!
# Sorted lists and hash maps

* `sortBy key` is `List.sort` with a comparator that compares the `key` of two
  elements.  It is stable: `filter_sortBy` says that the elements of one key
  keep their order.
* A `HashMap` is the list of its entries, in the order in which the keys were
  put for the first time.  The order in which a loop visits the keys is not
  specified; a program that has such a loop takes it as a parameter.
-/

namespace Java

section Sorting

variable {α : Type}

/-- `list.sort(comparator)`, for the comparator `Integer.compare` of the keys. -/
def sortBy (key : α → Int) (l : List α) : List α :=
  l.insertionSort (fun a b => key a ≤ key b)

theorem sortBy_perm (key : α → Int) (l : List α) : (sortBy key l).Perm l :=
  List.perm_insertionSort _ l

theorem mem_sortBy {key : α → Int} {l : List α} {a : α} : a ∈ sortBy key l ↔ a ∈ l :=
  (sortBy_perm key l).mem_iff

theorem length_sortBy (key : α → Int) (l : List α) : (sortBy key l).length = l.length :=
  (sortBy_perm key l).length_eq

theorem sortBy_sorted (key : α → Int) (l : List α) :
    (sortBy key l).Pairwise (fun a b => key a ≤ key b) := by
  have : Std.Total (fun a b => key a ≤ key b) := ⟨fun a b => le_total (key a) (key b)⟩
  have : IsTrans α (fun a b => key a ≤ key b) := ⟨fun a b c => le_trans⟩
  exact List.pairwise_insertionSort _ l

theorem sortBy_of_sorted {key : α → Int} {l : List α}
    (h : l.Pairwise (fun a b => key a ≤ key b)) : sortBy key l = l :=
  h.insertionSort_eq

/-- An element of another key goes past the elements of the key `k`. -/
theorem filter_orderedInsert (key : α → Int) (k : Int) (a : α) (l : List α) :
    (l.orderedInsert (fun a b => key a ≤ key b) a).filter (fun b => key b = k)
      = (a :: l).filter (fun b => key b = k) := by
  induction l with
  | nil => rfl
  | cons b l ih =>
    rw [List.orderedInsert_cons]
    split_ifs with hab
    · rfl
    · rw [List.filter_cons, ih]
      simp only [List.filter_cons]
      by_cases hb : key b = k
      · have ha : key a ≠ k := by omega
        simp [ha, hb]
      · simp [hb]

/-- The sort is stable. -/
theorem filter_sortBy (key : α → Int) (l : List α) (k : Int) :
    (sortBy key l).filter (fun b => key b = k) = l.filter (fun b => key b = k) := by
  induction l with
  | nil => rfl
  | cons a l ih =>
    rw [sortBy, List.insertionSort_cons, filter_orderedInsert, List.filter_cons,
      List.filter_cons, ← ih, sortBy]

end Sorting

section HashMap

variable {κ ν : Type}

/-- A `HashMap` from keys in `κ` to values in `ν`. -/
abbrev HashMap (κ ν : Type) := List (κ × ν)

namespace HashMap

/-- The keys, in the order in which they were put for the first time. -/
def keys (m : HashMap κ ν) : List κ := m.map Prod.fst

variable [DecidableEq κ]

/-- `map.containsKey(key)`. -/
def containsKey (m : HashMap κ ν) (key : κ) : Bool := m.any (fun e => e.1 = key)

/-- `map.get(key)` for a caller that needs a value. -/
def get : HashMap κ ν → κ → Run ν
  | [], _ => .error .nullPointer
  | e :: m, key => if e.1 = key then .ok e.2 else get m key

/-- `map.put(key, value)`. -/
def put : HashMap κ ν → κ → ν → HashMap κ ν
  | [], key, value => [(key, value)]
  | e :: m, key, value => if e.1 = key then (key, value) :: m else e :: put m key value

theorem get_put (m : HashMap κ ν) (key k : κ) (v : ν) :
    (put m key v).get k = if k = key then .ok v else m.get k := by
  induction m with
  | nil =>
    rw [put, get, get]
    by_cases hk : k = key
    · rw [if_pos hk, if_pos hk.symm]
    · rw [if_neg hk, if_neg (Ne.symm hk), get]
  | cons e m ih =>
    rw [put]
    split_ifs with h hk hk
    · rw [get, if_pos hk.symm]
    · rw [get, get, if_neg (Ne.symm hk), if_neg (fun he => hk (he.symm.trans h))]
    · rw [get, if_neg (fun he => h (he.trans hk)), ih, if_pos hk]
    · rw [get, get, ih, if_neg hk]

theorem mem_keys_put {m : HashMap κ ν} {key k : κ} {v : ν} :
    k ∈ (put m key v).keys ↔ k = key ∨ k ∈ m.keys := by
  induction m with
  | nil => simp [put, keys]
  | cons e m ih =>
    rw [put]
    split_ifs with h
    · simp [keys, h]
    · simp only [keys, List.map_cons, List.mem_cons] at ih ⊢
      rw [ih]
      tauto

theorem nodup_keys_put {m : HashMap κ ν} (h : m.keys.Nodup) (key : κ) (v : ν) :
    (put m key v).keys.Nodup := by
  induction m with
  | nil => simp [put, keys]
  | cons e m ih =>
    rw [keys, List.map_cons, List.nodup_cons] at h
    rw [put]
    split_ifs with he
    · rw [keys, List.map_cons, List.nodup_cons]
      exact ⟨he ▸ h.1, h.2⟩
    · rw [keys, List.map_cons, List.nodup_cons]
      refine ⟨?_, ih h.2⟩
      intro hmem
      rcases mem_keys_put.mp hmem with h1 | h1
      · exact he h1
      · exact h.1 h1

theorem containsKey_iff {m : HashMap κ ν} {key : κ} : m.containsKey key = true ↔ key ∈ m.keys := by
  simp [containsKey, keys]

/-- A missing key is answered with `null`. -/
theorem get_of_not_mem {m : HashMap κ ν} {key : κ} (h : key ∉ m.keys) :
    m.get key = .error .nullPointer := by
  induction m with
  | nil => rfl
  | cons e m ih =>
    rw [keys, List.map_cons, List.mem_cons, not_or] at h
    rw [get, if_neg (Ne.symm h.1), ih h.2]

theorem get_ne_error {m : HashMap κ ν} {key : κ} (h : key ∈ m.keys) {e : Exn} :
    m.get key ≠ .error e := by
  induction m with
  | nil => exact absurd h List.not_mem_nil
  | cons e m ih =>
    rw [get]
    split_ifs with hk
    · simp
    · rw [keys, List.map_cons, List.mem_cons] at h
      exact ih (h.resolve_left (Ne.symm hk))

end HashMap

end HashMap

/-! ## Interleavings -/

/-- The list `out` holds the elements of the lists `ls`, each of them in its own
order: what threads that work through `ls` add to a common list. -/
inductive Interleaving {α : Type} : List (List α) → List α → Prop
  | done {ls : List (List α)} (h : ls.flatten = []) : Interleaving ls []
  | step {pre post : List (List α)} {x : α} {l out : List α}
      (h : Interleaving (pre ++ l :: post) out) : Interleaving (pre ++ (x :: l) :: post) (x :: out)

theorem Interleaving.perm {α : Type} {ls : List (List α)} {out : List α}
    (h : Interleaving ls out) : out.Perm ls.flatten := by
  induction h with
  | done h => rw [h]
  | @step pre post x l out _ ih =>
    simp only [List.flatten_append, List.flatten_cons] at ih ⊢
    exact (ih.cons x).trans List.perm_middle.symm

/-- The threads may work one after the other. -/
theorem interleaving_flatten {α : Type} (ls : List (List α)) : Interleaving ls ls.flatten := by
  induction h : ls.flatten generalizing ls with
  | nil => exact Interleaving.done h
  | cons x out ih =>
    obtain ⟨pre, l, post, rfl, hpre, hout⟩ := List.flatten_eq_cons_iff.mp h
    subst hout
    apply Interleaving.step
    apply ih
    rw [List.flatten_append, List.flatten_cons, List.flatten_eq_nil_iff.mpr hpre, List.nil_append]

end Java
