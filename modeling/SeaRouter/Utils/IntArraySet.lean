import SeaRouter.Lib.SortedArray

/-!
# `utils/IntArraySet.java`

A set of ints in a sorted array, filled up with `MAX_VALUE`.  `Holds s P` says
that the set contains exactly the ints of `P`.
-/

namespace SeaRouter

open Java

/-- The fields of `IntArraySet`. -/
structure IntArraySet where
  elements : List Int
  elementCount : Int
  sizeIncrease : Int
deriving DecidableEq, Repr

namespace IntArraySet

/-- `IntArraySet(size, sizeIncrease)`. -/
def new (size sizeIncrease : Nat) : IntArraySet where
  elements := List.replicate size MAX_VALUE
  elementCount := 0
  sizeIncrease := sizeIncrease

def contains (s : IntArraySet) (element : Int) : Run Bool := do
  let idx ← binarySearch s.elements element
  return 0 ≤ idx

def grow (s : IntArraySet) : IntArraySet :=
  { s with elements := growBy s.elements s.sizeIncrease MAX_VALUE }

/-- `grow()` if the array is full. -/
def growIfFull (s : IntArraySet) : IntArraySet :=
  if s.elementCount = s.elements.length then grow s else s

def add (s : IntArraySet) (toAdd : Int) : Run IntArraySet := do
  let idx ← binarySearch s.elements toAdd
  if 0 ≤ idx then
    -- element already contained, no need to add again
    return s
  else
    let s := growIfFull s
    let elements ← shiftInsert s.elements ((idx + 1) * (-1)) s.elementCount toAdd
    return { s with elements := elements, elementCount := s.elementCount + 1 }

/-- The set contains exactly the ints of `P`. -/
def Holds (s : IntArraySet) (P : Int → Prop) : Prop :=
  0 < s.sizeIncrease ∧ ∃ xs free, Padded s.elements xs free ∧ s.elementCount = xs.length ∧
    ∀ x, P x ↔ x ∈ xs

theorem Holds.congr {s : IntArraySet} {P Q : Int → Prop} (h : Holds s P)
    (hPQ : ∀ x, Q x ↔ P x) : Holds s Q := by
  obtain ⟨hinc, xs, free, hp, hcount, hP⟩ := h
  exact ⟨hinc, xs, free, hp, hcount, fun x => (hPQ x).trans (hP x)⟩

theorem new_holds (size : Nat) {sizeIncrease : Nat} (h : 0 < sizeIncrease) :
    Holds (new size sizeIncrease) (fun _ => False) :=
  ⟨by simp only [new]; omega, [], size, ⟨rfl, by simp, by simp⟩, rfl, by simp⟩

theorem contains_spec {s : IntArraySet} {P : Int → Prop} (h : Holds s P) {x : Int}
    (hx : x < MAX_VALUE) : ∃ b, contains s x = .ok b ∧ (b = true ↔ P x) := by
  obtain ⟨_, xs, free, hp, _, hP⟩ := h
  refine ⟨decide (0 ≤ encodeRank xs x), ?_, ?_⟩
  · rw [contains, binarySearch_padded hp hx]
    rfl
  · rw [decide_eq_true_eq, hP, encodeRank]
    split_ifs with hmem
    · exact ⟨fun _ => hmem, fun _ => by omega⟩
    · exact ⟨fun h => by omega, fun h => absurd h hmem⟩

theorem add_spec {s : IntArraySet} {P : Int → Prop} (h : Holds s P) {x : Int}
    (hx : x < MAX_VALUE) : ∃ s', add s x = .ok s' ∧ Holds s' (fun y => P y ∨ y = x) := by
  obtain ⟨hinc, xs, free, hp, hcount, hP⟩ := h
  have hle := rank_le_length xs x
  unfold add
  rw [binarySearch_padded hp hx, ok_bind]
  by_cases hmem : x ∈ xs
  · rw [encodeRank, if_pos hmem, if_pos (by omega)]
    refine ⟨s, rfl, hinc, xs, free, hp, hcount, ?_⟩
    intro y
    simp only [hP]
    constructor
    · rintro (h | rfl)
      · exact h
      · exact hmem
    · exact Or.inl
  · have hlen : s.elements.length = xs.length + free := by rw [hp.eq]; simp
    obtain ⟨free', helem⟩ : ∃ free',
        (growIfFull s).elements = xs ++ MAX_VALUE :: List.replicate free' MAX_VALUE := by
      unfold growIfFull
      split_ifs with hfull
      · have hfree : free = 0 := by omega
        obtain ⟨k, hk⟩ : ∃ k : Nat, s.sizeIncrease.toNat = k + 1 :=
          ⟨s.sizeIncrease.toNat - 1, by omega⟩
        exact ⟨k, by simp [grow, growBy, hp.eq, hfree, hk, List.replicate_succ]⟩
      · obtain ⟨k, rfl⟩ : ∃ k, free = k + 1 := ⟨free - 1, by omega⟩
        exact ⟨k, by rw [hp.eq, List.replicate_succ]⟩
    have hcount' : (growIfFull s).elementCount = xs.length := by
      unfold growIfFull
      split_ifs <;> exact hcount
    have hinc' : (growIfFull s).sizeIncrease = s.sizeIncrease := by
      unfold growIfFull
      split_ifs <;> rfl
    rw [encodeRank, if_neg hmem, if_neg (by omega)]
    refine ⟨{ growIfFull s with
        elements := xs.insertIdx (rank xs x) x ++ List.replicate free' MAX_VALUE
        elementCount := (growIfFull s).elementCount + 1 }, ?_, ?_, _, free',
      hp.insert hx hmem free', ?_, ?_⟩
    · have hidx : (-((rank xs x : Int) + 1) + 1) * (-1) = (rank xs x : Int) := by ring
      simp only [hidx, helem, hcount', shiftInsert_eq _ _ _ hle, ok_bind]
      rfl
    · simp only [hinc']
      exact hinc
    · simp only [hcount']
      rw [List.length_insertIdx_of_le_length hle]
      push_cast
      rfl
    · intro y
      simp only [mem_insertIdx_rank, hP, or_comm]

end IntArraySet

end SeaRouter
