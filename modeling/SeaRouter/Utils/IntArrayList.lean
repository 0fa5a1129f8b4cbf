import SeaRouter.Lib.Array
import SeaRouter.Lib.Simulation

/-!
# `utils/IntArrayList.java`

A list of ints in an array that grows.  `Holds s xs` says that the list is `xs`; the other
modules use such a list in its place.

* `calls_spec`: in any sequence of calls the class returns what the list would.
-/

namespace SeaRouter

open Java

/-- The fields of `IntArrayList`. -/
structure IntArrayList where
  elements : List Int
  elementCount : Int
  sizeIncrease : Int
deriving DecidableEq, Repr

namespace IntArrayList

/-- `IntArrayList(size)`. -/
def new (size : Nat) : IntArrayList where
  elements := List.replicate size 0
  elementCount := 0
  sizeIncrease := size

def get (s : IntArrayList) (idx : Int) : Run Int :=
  if s.elementCount ≤ idx then throw .indexOutOfBounds else rd s.elements idx

def grow (s : IntArrayList) : IntArrayList :=
  { s with elements := growBy s.elements s.sizeIncrease 0 }

/-- `grow()` if the array is full. -/
def growIfFull (s : IntArrayList) : IntArrayList :=
  if s.elementCount = s.elements.length then grow s else s

def add (s : IntArrayList) (toAdd : Int) : Run IntArrayList := do
  let s := growIfFull s
  let elements ← wr s.elements s.elementCount toAdd
  return { s with elements := elements, elementCount := s.elementCount + 1 }

def getLen (s : IntArrayList) : Int := s.elementCount

def clear (s : IntArrayList) : IntArrayList := { s with elementCount := 0 }

/-! ## The elements -/

/-- The elements are `xs`; those behind them are left from before a `clear`. -/
structure Holds (s : IntArrayList) (xs : List Int) : Prop where
  increase : 0 < s.sizeIncrease
  array : ∃ rest, s.elements = xs ++ rest
  count : s.elementCount = xs.length

variable {s : IntArrayList} {xs : List Int}

theorem new_holds {size : Nat} (h : 0 < size) : Holds (new size) [] where
  increase := by
    show 0 < (size : Int)
    omega
  array := ⟨_, rfl⟩
  count := rfl

theorem clear_holds (h : Holds s xs) : Holds (clear s) [] where
  increase := h.increase
  array := ⟨s.elements, rfl⟩
  count := rfl

/-- Old elements are not found. -/
theorem get_eq (h : Holds s xs) (idx : Int) : get s idx = rd xs idx := by
  obtain ⟨rest, helem⟩ := h.array
  rw [get, h.count]
  split_ifs with hout
  · exact (rd_of_length_le hout).symm
  · rw [helem, rd_append_left (not_le.mp hout)]

theorem growIfFull_holds (h : Holds s xs) :
    Holds (growIfFull s) xs ∧ (growIfFull s).elementCount < (growIfFull s).elements.length := by
  obtain ⟨rest, helem⟩ := h.array
  have hinc := h.increase
  have hcount := h.count
  have hlen : s.elements.length = xs.length + rest.length := by rw [helem, List.length_append]
  unfold growIfFull
  split_ifs with hfull
  · refine ⟨⟨hinc, ⟨rest ++ List.replicate s.sizeIncrease.toNat 0, ?_⟩, hcount⟩, ?_⟩
    · rw [grow, growBy, helem, List.append_assoc]
    · simp only [grow, growBy, List.length_append, List.length_replicate]
      omega
  · exact ⟨h, by omega⟩

theorem add_spec (h : Holds s xs) (x : Int) : ∃ s', add s x = .ok s' ∧ Holds s' (xs ++ [x]) := by
  obtain ⟨hg, hlt⟩ := growIfFull_holds h
  obtain ⟨rest, helem⟩ := hg.array
  have hcount := hg.count
  have hset : (growIfFull s).elements.set (growIfFull s).elementCount.toNat x
      = xs ++ [x] ++ rest.tail := by
    rw [hcount, Int.toNat_natCast, helem, List.set_append_right _ _ (le_refl _)]
    cases rest with
    | nil =>
      rw [helem, hcount] at hlt
      simp at hlt
    | cons y rest => simp
  refine ⟨{ growIfFull s with
      elements := (growIfFull s).elements.set (growIfFull s).elementCount.toNat x
      elementCount := (growIfFull s).elementCount + 1 }, ?_, hg.increase, ⟨rest.tail, hset⟩, ?_⟩
  · rw [add, wr_of_bounds x (by omega) hlt]
    rfl
  · rw [hcount, List.length_append]
    rfl

/-! ## Sequences of calls -/

inductive Call
  | get (idx : Int)
  | add (toAdd : Int)
  | getLen
  | clear
deriving DecidableEq, Repr

def call (s : IntArrayList) : Call → Run (Returned × IntArrayList)
  | .get idx => do return (.int (← get s idx), s)
  | .add toAdd => do return (.void, ← add s toAdd)
  | .getLen => return (.int (getLen s), s)
  | .clear => return (.void, clear s)

/-- A list. -/
def listSpec : Specification (List Int) Call where
  allows
    | xs, .get idx => 0 ≤ idx ∧ idx < xs.length
    | _, _ => True
  result
    | xs, .get idx => .int (xs.getD idx.toNat 0)
    | xs, .getLen => .int xs.length
    | _, _ => .void
  next
    | xs, .add x => xs ++ [x]
    | _, .clear => []
    | xs, _ => xs

theorem implements_listSpec : Implements call listSpec Holds := by
  intro s xs c h hallows
  cases c with
  | get idx =>
    obtain ⟨x, hrd⟩ := exists_rd hallows.1 hallows.2
    refine ⟨s, ?_, h⟩
    have hx : xs.getD idx.toNat 0 = x := by
      rw [List.getD_eq_getElem?_getD, (rd_eq_ok.mp hrd).2]
      rfl
    show (get s idx >>= fun x => pure (Returned.int x, s)) = .ok (.int (xs.getD idx.toNat 0), s)
    rw [get_eq h, hrd, hx]
    rfl
  | add x =>
    obtain ⟨s', hrun, hs'⟩ := add_spec h x
    refine ⟨s', ?_, hs'⟩
    show (add s x >>= fun s' => pure (Returned.void, s')) = .ok (.void, s')
    rw [hrun]
    rfl
  | getLen =>
    refine ⟨s, ?_, h⟩
    show Except.ok (Returned.int s.elementCount, s) = .ok (.int xs.length, s)
    rw [h.count]
  | clear => exact ⟨clear s, rfl, clear_holds h⟩

/-- In any sequence of calls the class returns what the list would. -/
theorem calls_spec {size : Nat} (hsize : 0 < size) (cs : List Call)
    (hall : listSpec.AllowsAll [] cs) :
    ∃ s, calls call cs (new size) = .ok (listSpec.results [] cs, s) ∧
      Holds s (listSpec.after [] cs) :=
  implements_listSpec.calls cs (new_holds hsize) hall

end IntArrayList

end SeaRouter
