import SeaRouter.Lib.Array
import SeaRouter.Lib.Simulation

/-!
# `utils/IntStack.java`

A stack of ints in an array that grows.  It can be read from both ends: `pop`
takes the element that was pushed last and `popFifo` the one that was pushed
first.  A popped element stays in the array; `fifoIdx` and `nextIdx` say where
the elements of the stack begin and end, and `Holds s xs` that these are `xs`,
the oldest one first.

`calls_bothEnds` says that in any sequence of calls, from both ends and with a `clear` at
any time, the stack returns what the list would.
-/

namespace SeaRouter

open Java

/-- The fields of `IntStack`. -/
structure IntStack where
  elements : List Int
  nextIdx : Int
  fifoIdx : Int
  sizeIncrease : Int
deriving DecidableEq, Repr

namespace IntStack

/-- `IntStack(size)`. -/
def new (size : Nat) : IntStack where
  elements := List.replicate size 0
  nextIdx := 0
  fifoIdx := 0
  sizeIncrease := size

def clear (s : IntStack) : IntStack := { s with nextIdx := 0, fifoIdx := 0 }

def popFifo (s : IntStack) : Run (Int × IntStack) := do
  let retVal ← rd s.elements s.fifoIdx
  return (retVal, { s with fifoIdx := s.fifoIdx + 1 })

def pop (s : IntStack) : Run (Int × IntStack) := do
  let nextIdx := s.nextIdx - 1
  return (← rd s.elements nextIdx, { s with nextIdx := nextIdx })

def grow (s : IntStack) : IntStack :=
  { s with elements := growBy s.elements s.sizeIncrease 0 }

/-- `grow()` if the array is full. -/
def growIfFull (s : IntStack) : IntStack :=
  if s.nextIdx = s.elements.length then grow s else s

def push (s : IntStack) (toAdd : Int) : Run IntStack := do
  let s := growIfFull s
  let elements ← wr s.elements s.nextIdx toAdd
  return { s with elements := elements, nextIdx := s.nextIdx + 1 }

def isEmpty (s : IntStack) : Bool := s.nextIdx == s.fifoIdx

/-! ## The elements of the stack -/

/-- The stack has the elements `xs`; those before were taken by `popFifo`. -/
structure Holds (s : IntStack) (xs : List Int) : Prop where
  increase : 0 < s.sizeIncrease
  array : ∃ pre rest, s.elements = pre ++ xs ++ rest ∧ s.fifoIdx = pre.length ∧
    s.nextIdx = (pre.length + xs.length : Nat)

variable {s : IntStack} {xs : List Int} {x : Int}

theorem new_holds {size : Nat} (h : 0 < size) : Holds (new size) [] :=
  ⟨by show 0 < (size : Int); omega, [], _, rfl, rfl, rfl⟩

/-- Whatever an emptied stack holds beyond its elements does not matter. -/
theorem clear_holds (h : 0 < s.sizeIncrease) : Holds (clear s) [] :=
  ⟨h, [], s.elements, rfl, rfl, rfl⟩

/-- The fields of a stack determine its elements. -/
theorem Holds.unique {ys : List Int} (h : Holds s xs) (h' : Holds s ys) : xs = ys := by
  obtain ⟨pre, rest, helem, hfifo, hnext⟩ := h.array
  obtain ⟨pre', rest', helem', hfifo', hnext'⟩ := h'.array
  have hpre : pre.length = pre'.length := by omega
  have hlen : xs.length = ys.length := by omega
  have heq : pre ++ (xs ++ rest) = pre' ++ (ys ++ rest') := by
    rw [← List.append_assoc, ← List.append_assoc, ← helem, ← helem']
  exact (List.append_inj (List.append_inj heq hpre).2 hlen).1

theorem isEmpty_eq (h : Holds s xs) : isEmpty s = xs.isEmpty := by
  obtain ⟨pre, rest, _, hfifo, hnext⟩ := h.array
  unfold isEmpty
  rw [hfifo, hnext]
  cases xs with
  | nil => simp
  | cons x xs =>
    simp only [List.length_cons, List.isEmpty_cons, beq_eq_false_iff_ne, ne_eq]
    omega

theorem popFifo_spec (h : Holds s (x :: xs)) : ∃ s', popFifo s = .ok (x, s') ∧ Holds s' xs := by
  obtain ⟨pre, rest, helem, hfifo, hnext⟩ := h.array
  have hrd : rd s.elements s.fifoIdx = .ok x := by
    rw [hfifo, helem]
    apply rd_of_getElem?
    simp
  refine ⟨{ s with fifoIdx := s.fifoIdx + 1 }, by rw [popFifo, hrd]; rfl, h.increase,
    pre ++ [x], rest, ?_, ?_, ?_⟩
  · simp [helem]
  · simp [hfifo]
  · simp only [hnext, List.length_cons, List.length_append, List.length_nil]
    omega

theorem pop_spec (h : Holds s (xs ++ [x])) : ∃ s', pop s = .ok (x, s') ∧ Holds s' xs := by
  obtain ⟨pre, rest, helem, hfifo, hnext⟩ := h.array
  have hidx : s.nextIdx - 1 = (pre.length + xs.length : Nat) := by
    rw [hnext, List.length_append]
    simp only [List.length_cons, List.length_nil]
    omega
  have hrd : rd s.elements (s.nextIdx - 1) = .ok x := by
    rw [hidx, helem]
    apply rd_of_getElem?
    have : pre ++ (xs ++ [x]) ++ rest = (pre ++ xs) ++ x :: rest := by simp
    rw [this, List.getElem?_append_right (by simp)]
    simp
  refine ⟨{ s with nextIdx := s.nextIdx - 1 }, by rw [pop, hrd]; rfl, h.increase, pre,
    x :: rest, ?_, hfifo, hidx⟩
  simp [helem]

/-- Behind the elements there is room for one more. -/
theorem growIfFull_holds (h : Holds s xs) :
    Holds (growIfFull s) xs ∧ (growIfFull s).nextIdx < (growIfFull s).elements.length := by
  obtain ⟨pre, rest, helem, hfifo, hnext⟩ := h.array
  have hinc := h.increase
  unfold growIfFull
  split_ifs with hfull
  · refine ⟨⟨hinc, pre, rest ++ List.replicate s.sizeIncrease.toNat 0, ?_, hfifo, hnext⟩, ?_⟩
    · simp [grow, growBy, helem]
    · simp only [grow, growBy, List.length_append, List.length_replicate]
      omega
  · refine ⟨h, ?_⟩
    simp only [helem, List.length_append] at hfull ⊢
    omega

theorem push_spec (h : Holds s xs) (x : Int) :
    ∃ s', push s x = .ok s' ∧ Holds s' (xs ++ [x]) := by
  obtain ⟨hg, hlt⟩ := growIfFull_holds h
  obtain ⟨pre, rest, helem, hfifo, hnext⟩ := hg.array
  have hset : (growIfFull s).elements.set (growIfFull s).nextIdx.toNat x =
      pre ++ (xs ++ [x]) ++ rest.tail := by
    cases rest with
    | nil =>
      rw [helem, hnext] at hlt
      simp at hlt
    | cons y rest =>
      have hidx : ((pre.length + xs.length : Nat) : Int).toNat = (pre ++ xs).length := by
        rw [Int.toNat_natCast, List.length_append]
      rw [helem, hnext, hidx, List.set_append_right _ _ (le_refl _)]
      simp
  have hwr := wr_of_bounds x (by omega : 0 ≤ (growIfFull s).nextIdx) hlt
  refine ⟨{ growIfFull s with
      elements := (growIfFull s).elements.set (growIfFull s).nextIdx.toNat x
      nextIdx := (growIfFull s).nextIdx + 1 }, by rw [push, hwr]; rfl, hg.increase, pre,
    rest.tail, hset, hfifo, ?_⟩
  simp only [hnext, List.length_append, List.length_cons, List.length_nil]
  omega

/-! ## Sequences of calls -/

inductive Call
  | clear
  | popFifo
  | pop
  | push (toAdd : Int)
  | isEmpty
deriving DecidableEq, Repr

def call (s : IntStack) : Call → Run (Returned × IntStack)
  | .clear => return (.void, clear s)
  | .popFifo => do
    let (x, s) ← popFifo s
    return (.int x, s)
  | .pop => do
    let (x, s) ← pop s
    return (.int x, s)
  | .push toAdd => do return (.void, ← push s toAdd)
  | .isEmpty => return (.boolean (isEmpty s), s)

/-- A list that grows at its end and is taken from at both. -/
def listSpec : Specification (List Int) Call where
  allows
    | xs, .popFifo => xs ≠ []
    | xs, .pop => xs ≠ []
    | _, _ => True
  result
    | xs, .popFifo => .int (xs.headD 0)
    | xs, .pop => .int (xs.getLastD 0)
    | xs, .isEmpty => .boolean xs.isEmpty
    | _, _ => .void
  next
    | _, .clear => []
    | xs, .popFifo => xs.tail
    | xs, .pop => xs.dropLast
    | xs, .push x => xs ++ [x]
    | xs, .isEmpty => xs

theorem implements_listSpec : Implements call listSpec Holds := by
  intro s xs c h hallows
  cases c with
  | clear => exact ⟨clear s, rfl, clear_holds h.increase⟩
  | popFifo =>
    cases xs with
    | nil => exact absurd rfl hallows
    | cons x xs =>
      obtain ⟨s', hrun, hs'⟩ := popFifo_spec h
      refine ⟨s', ?_, hs'⟩
      show (popFifo s >>= fun r => pure (Returned.int r.1, r.2)) = .ok (.int x, s')
      rw [hrun]
      rfl
  | pop =>
    rcases List.eq_nil_or_concat xs with rfl | ⟨xs, x, rfl⟩
    · exact absurd rfl hallows
    · rw [List.concat_eq_append] at h ⊢
      obtain ⟨s', hrun, hs'⟩ := pop_spec h
      refine ⟨s', ?_, ?_⟩
      · show (pop s >>= fun r => pure (Returned.int r.1, r.2))
          = .ok (.int ((xs ++ [x]).getLastD 0), s')
        rw [hrun, List.getLastD_concat]
        rfl
      · show Holds s' (xs ++ [x]).dropLast
        rw [List.dropLast_concat]
        exact hs'
  | push x =>
    obtain ⟨s', hrun, hs'⟩ := push_spec h x
    refine ⟨s', ?_, hs'⟩
    show (push s x >>= fun s' => pure (Returned.void, s')) = .ok (.void, s')
    rw [hrun]
    rfl
  | isEmpty =>
    refine ⟨s, ?_, h⟩
    show Except.ok (Returned.boolean (isEmpty s), s) = .ok (.boolean xs.isEmpty, s)
    rw [isEmpty_eq h]

/-- In any sequence of calls the stack returns what the list would. -/
theorem calls_bothEnds {size : Nat} (hsize : 0 < size) (cs : List Call)
    (hall : listSpec.AllowsAll [] cs) :
    ∃ s, calls call cs (new size) = .ok (listSpec.results [] cs, s) ∧
      Holds s (listSpec.after [] cs) :=
  implements_listSpec.calls cs (new_holds hsize) hall

/-- The array grows, and the stack is taken from at both ends. -/
theorem calls_bothEnds_three :
    ∃ s, calls call [.push 1, .push 2, .push 3, .popFifo, .pop, .isEmpty] (new 1)
        = .ok ([.void, .void, .void, .int 1, .int 3, .boolean false], s) ∧ Holds s [2] :=
  calls_bothEnds (by decide) _ (by simp [Specification.AllowsAll, listSpec])

end IntStack

end SeaRouter
