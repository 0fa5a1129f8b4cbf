import SeaRouter.Lib.Array

/-!
# `hublablecreation/Edges.java`

An edge id below `numOfOriginalEdges` is an original edge; the ids from there
on are shortcuts, in the order in which they were added.  The shortcut arrays
grow, so `nextShortcutId` and not their length says how many there are.

`IsEdge E e u v l` reads an edge off the arrays.  When the arrays are `Valid`,
every id below `nextShortcutId` is an edge, and `addShortcutEdge_spec` says
that a new shortcut changes none of the edges that were there before.
-/

namespace SeaRouter

open Java

/-- The static fields of `Edges`. -/
structure Edges where
  originalEdgeStart : List Int
  originalEdgeDest : List Int
  originalEdgeDist : List Int
  numOfOriginalEdges : Int
  shortcutEdgeStart : List Int
  shortcutEdgeDest : List Int
  shortcutEdgeDist : List Int
  shortcutEdgeParts : List Int
  nextShortcutId : Int
  shortcutEdgeSizeIncrease : Int
deriving DecidableEq, Repr

namespace Edges

def getDest (E : Edges) (i : Int) : Run Int :=
  if i < E.numOfOriginalEdges then rd E.originalEdgeDest i
  else rd E.shortcutEdgeDest (i - E.numOfOriginalEdges)

def getDist (E : Edges) (i : Int) : Run Int :=
  if i < E.numOfOriginalEdges then rd E.originalEdgeDist i
  else rd E.shortcutEdgeDist (i - E.numOfOriginalEdges)

/-- The start of an edge; the source reads it from the same arrays. -/
def getStart (E : Edges) (i : Int) : Run Int :=
  if i < E.numOfOriginalEdges then rd E.originalEdgeStart i
  else rd E.shortcutEdgeStart (i - E.numOfOriginalEdges)

/-- The edges with which the contraction begins: the three arrays of original
edges are set and `initializeForShortcutEdges(numOfOriginalEdges)` is called. -/
def initializeForShortcutEdges (start dest dist : List Int) (numOfOriginalEdges : Nat) :
    Edges where
  originalEdgeStart := start
  originalEdgeDest := dest
  originalEdgeDist := dist
  numOfOriginalEdges := numOfOriginalEdges
  nextShortcutId := numOfOriginalEdges
  shortcutEdgeSizeIncrease := (numOfOriginalEdges / 2 : Nat)
  shortcutEdgeStart := List.replicate (numOfOriginalEdges / 2) 0
  shortcutEdgeDest := List.replicate (numOfOriginalEdges / 2) 0
  shortcutEdgeDist := List.replicate (numOfOriginalEdges / 2) 0
  shortcutEdgeParts := List.replicate (numOfOriginalEdges / 2 * 2) 0

def grow (E : Edges) : Edges :=
  { E with
    shortcutEdgeStart := growBy E.shortcutEdgeStart E.shortcutEdgeSizeIncrease 0
    shortcutEdgeDest := growBy E.shortcutEdgeDest E.shortcutEdgeSizeIncrease 0
    shortcutEdgeDist := growBy E.shortcutEdgeDist E.shortcutEdgeSizeIncrease 0
    shortcutEdgeParts := growBy E.shortcutEdgeParts (E.shortcutEdgeSizeIncrease * 2) 0 }

/-- `grow()` if the arrays are full. -/
def growIfFull (E : Edges) : Edges :=
  if (E.shortcutEdgeDist.length : Int) - 1 < E.nextShortcutId - E.numOfOriginalEdges then grow E
  else E

def addShortcutEdge (E : Edges) (start dest dist firstEdgeUsed secondEdgeUsed : Int) :
    Run (Int × Edges) := do
  let nextArrayPosition := E.nextShortcutId - E.numOfOriginalEdges
  let E := growIfFull E
  let shortcutEdgeStart ← wr E.shortcutEdgeStart nextArrayPosition start
  let shortcutEdgeDest ← wr E.shortcutEdgeDest nextArrayPosition dest
  let shortcutEdgeDist ← wr E.shortcutEdgeDist nextArrayPosition dist
  -- shortcut parts have to account for the array being twice as long
  let parts ← wr E.shortcutEdgeParts (nextArrayPosition * 2) firstEdgeUsed
  let parts ← wr parts (nextArrayPosition * 2 + 1) secondEdgeUsed
  return (E.nextShortcutId, { E with
    shortcutEdgeStart := shortcutEdgeStart, shortcutEdgeDest := shortcutEdgeDest
    shortcutEdgeDist := shortcutEdgeDist, shortcutEdgeParts := parts
    nextShortcutId := E.nextShortcutId + 1 })

/-! ## The edges that the arrays hold -/

/-- The arrays fit together: those of the shortcuts have one length, and the
shortcuts added so far are within it. -/
structure Valid (E : Edges) : Prop where
  origStart : (E.originalEdgeStart.length : Int) = E.numOfOriginalEdges
  origDest : (E.originalEdgeDest.length : Int) = E.numOfOriginalEdges
  origDist : (E.originalEdgeDist.length : Int) = E.numOfOriginalEdges
  startLength : E.shortcutEdgeStart.length = E.shortcutEdgeDist.length
  destLength : E.shortcutEdgeDest.length = E.shortcutEdgeDist.length
  partsLength : E.shortcutEdgeParts.length = 2 * E.shortcutEdgeDist.length
  orig_le_next : E.numOfOriginalEdges ≤ E.nextShortcutId
  next_le : E.nextShortcutId - E.numOfOriginalEdges ≤ E.shortcutEdgeDist.length
  increase : 2 ≤ E.numOfOriginalEdges → 0 < E.shortcutEdgeSizeIncrease

/-- The edge `e` leads from `u` to `v` and has the length `l`. -/
structure IsEdge (E : Edges) (e u v l : Int) : Prop where
  nonneg : 0 ≤ e
  lt_next : e < E.nextShortcutId
  start : E.getStart e = .ok u
  dest : E.getDest e = .ok v
  dist : E.getDist e = .ok l

/-- The shortcut `e` was added with the parts `p` and `q`, in that order. -/
structure HasParts (E : Edges) (e p q : Int) : Prop where
  first : rd E.shortcutEdgeParts ((e - E.numOfOriginalEdges) * 2) = .ok p
  second : rd E.shortcutEdgeParts ((e - E.numOfOriginalEdges) * 2 + 1) = .ok q

variable {E E' : Edges}

theorem Valid.exists_isEdge (h : Valid E) {e : Int} (h0 : 0 ≤ e) (h1 : e < E.nextShortcutId) :
    ∃ u v l, IsEdge E e u v l := by
  have hs := h.startLength
  have hd := h.destLength
  have hn := h.next_le
  by_cases he : e < E.numOfOriginalEdges
  · obtain ⟨u, hu⟩ := exists_rd (a := E.originalEdgeStart) h0 (by rw [h.origStart]; exact he)
    obtain ⟨v, hv⟩ := exists_rd (a := E.originalEdgeDest) h0 (by rw [h.origDest]; exact he)
    obtain ⟨l, hl⟩ := exists_rd (a := E.originalEdgeDist) h0 (by rw [h.origDist]; exact he)
    exact ⟨u, v, l, h0, h1, by rw [getStart, if_pos he, hu], by rw [getDest, if_pos he, hv],
      by rw [getDist, if_pos he, hl]⟩
  · have he0 : 0 ≤ e - E.numOfOriginalEdges := by omega
    obtain ⟨u, hu⟩ := exists_rd (a := E.shortcutEdgeStart) he0 (by omega)
    obtain ⟨v, hv⟩ := exists_rd (a := E.shortcutEdgeDest) he0 (by omega)
    obtain ⟨l, hl⟩ := exists_rd (a := E.shortcutEdgeDist) he0 (by omega)
    exact ⟨u, v, l, h0, h1, by rw [getStart, if_neg he, hu], by rw [getDest, if_neg he, hv],
      by rw [getDist, if_neg he, hl]⟩

/-- `E'` has all edges of `E`, with the same ids, and maybe more shortcuts. -/
structure Extends (E E' : Edges) : Prop where
  orig : E'.numOfOriginalEdges = E.numOfOriginalEdges
  origStart : E'.originalEdgeStart = E.originalEdgeStart
  origDest : E'.originalEdgeDest = E.originalEdgeDest
  origDist : E'.originalEdgeDist = E.originalEdgeDist
  next_le : E.nextShortcutId ≤ E'.nextShortcutId
  edge : ∀ e u v l, IsEdge E e u v l → IsEdge E' e u v l
  parts : ∀ e p q, E.numOfOriginalEdges ≤ e → e < E.nextShortcutId → HasParts E e p q →
    HasParts E' e p q

theorem Extends.refl (E : Edges) : Extends E E :=
  ⟨rfl, rfl, rfl, rfl, le_refl _, fun _ _ _ _ h => h, fun _ _ _ _ _ h => h⟩

theorem Extends.trans {E'' : Edges} (h : Extends E E') (h' : Extends E' E'') : Extends E E'' where
  orig := h'.orig.trans h.orig
  origStart := h'.origStart.trans h.origStart
  origDest := h'.origDest.trans h.origDest
  origDist := h'.origDist.trans h.origDist
  next_le := h.next_le.trans h'.next_le
  edge := fun e u v l he => h'.edge e u v l (h.edge e u v l he)
  parts := fun e p q h0 h1 he =>
    h'.parts e p q (by rw [h.orig]; exact h0) (lt_of_lt_of_le h1 h.next_le) (h.parts e p q h0 h1 he)

/-! ## The data of an edge as total functions -/

/-- The value of a run that is known to return. -/
def valueOf (x : Run Int) : Int := x.toOption.getD 0

def startOf (E : Edges) (e : Int) : Int := valueOf (E.getStart e)

def destOf (E : Edges) (e : Int) : Int := valueOf (E.getDest e)

def distOf (E : Edges) (e : Int) : Int := valueOf (E.getDist e)

/-- The lengths of all edges together, those of the shortcuts among them. -/
def totalDist (E : Edges) : Int := ((indices 0 E.nextShortcutId).map E.distOf).sum

theorem IsEdge.startOf_eq {e u v l : Int} (h : IsEdge E e u v l) : E.startOf e = u := by
  rw [startOf, h.start]
  rfl

theorem IsEdge.destOf_eq {e u v l : Int} (h : IsEdge E e u v l) : E.destOf e = v := by
  rw [destOf, h.dest]
  rfl

theorem IsEdge.distOf_eq {e u v l : Int} (h : IsEdge E e u v l) : E.distOf e = l := by
  rw [distOf, h.dist]
  rfl

/-- The id of an edge. -/
def IsId (E : Edges) (e : Int) : Prop := 0 ≤ e ∧ e < E.nextShortcutId

theorem Valid.isEdge (h : Valid E) {e : Int} (he : E.IsId e) :
    IsEdge E e (E.startOf e) (E.destOf e) (E.distOf e) := by
  obtain ⟨u, v, l, hedge⟩ := h.exists_isEdge he.1 he.2
  rw [hedge.startOf_eq, hedge.destOf_eq, hedge.distOf_eq]
  exact hedge

theorem Extends.isId (h : Extends E E') {e : Int} (he : E.IsId e) : E'.IsId e :=
  ⟨he.1, lt_of_lt_of_le he.2 h.next_le⟩

theorem Extends.startOf_eq (h : Extends E E') (hv : Valid E) {e : Int} (he : E.IsId e) :
    E'.startOf e = E.startOf e :=
  (h.edge _ _ _ _ (hv.isEdge he)).startOf_eq

theorem Extends.destOf_eq (h : Extends E E') (hv : Valid E) {e : Int} (he : E.IsId e) :
    E'.destOf e = E.destOf e :=
  (h.edge _ _ _ _ (hv.isEdge he)).destOf_eq

theorem Extends.distOf_eq (h : Extends E E') (hv : Valid E) {e : Int} (he : E.IsId e) :
    E'.distOf e = E.distOf e :=
  (h.edge _ _ _ _ (hv.isEdge he)).distOf_eq

/-! ## New shortcuts -/

theorem initialize_valid {start dest dist : List Int} {m : Nat} (hs : start.length = m)
    (hd : dest.length = m) (hl : dist.length = m) :
    Valid (initializeForShortcutEdges start dest dist m) := by
  constructor <;> simp only [initializeForShortcutEdges, List.length_replicate] <;> omega

theorem growIfFull_spec (h : Valid E) (hnum : 2 ≤ E.numOfOriginalEdges) :
    Valid (growIfFull E) ∧ Extends E (growIfFull E) ∧
      (growIfFull E).nextShortcutId = E.nextShortcutId ∧
      (growIfFull E).nextShortcutId - (growIfFull E).numOfOriginalEdges
        < (growIfFull E).shortcutEdgeDist.length := by
  have hinc := h.increase hnum
  have hs := h.startLength
  have hd := h.destLength
  have hp := h.partsLength
  have hn := h.next_le
  have ho := h.orig_le_next
  unfold growIfFull
  split_ifs with hfull
  · refine ⟨⟨h.origStart, h.origDest, h.origDist, ?_, ?_, ?_, ho, ?_, fun _ => hinc⟩,
      ⟨rfl, rfl, rfl, rfl, le_refl _, ?_, ?_⟩, rfl, ?_⟩
    · simp [grow, growBy, hs]
    · simp [grow, growBy, hd]
    · simp only [grow, growBy, List.length_append, List.length_replicate, hp]
      omega
    · simp only [grow, growBy, List.length_append, List.length_replicate]
      omega
    · intro e u v l he
      have hlt := he.lt_next
      refine ⟨he.nonneg, he.lt_next, ?_, ?_, ?_⟩
      · have h1 := he.start
        simp only [getStart, grow, growBy] at h1 ⊢
        rw [rd_append_left (by omega)]
        exact h1
      · have h1 := he.dest
        simp only [getDest, grow, growBy] at h1 ⊢
        rw [rd_append_left (by omega)]
        exact h1
      · have h1 := he.dist
        simp only [getDist, grow, growBy] at h1 ⊢
        rw [rd_append_left (by omega)]
        exact h1
    · intro e p q h0 h1 he
      refine ⟨?_, ?_⟩
      · simp only [grow, growBy]
        rw [rd_append_left (by omega)]
        exact he.first
      · simp only [grow, growBy]
        rw [rd_append_left (by omega)]
        exact he.second
    · simp only [grow, growBy, List.length_append, List.length_replicate]
      omega
  · exact ⟨h, Extends.refl E, rfl, by omega⟩

/-- A new shortcut gets the next id; nothing else changes. -/
theorem addShortcutEdge_spec (h : Valid E) (hnum : 2 ≤ E.numOfOriginalEdges)
    (start dest dist p q : Int) :
    ∃ E', addShortcutEdge E start dest dist p q = .ok (E.nextShortcutId, E') ∧ Valid E' ∧
      Extends E E' ∧ E'.nextShortcutId = E.nextShortcutId + 1 ∧
      IsEdge E' E.nextShortcutId start dest dist ∧ HasParts E' E.nextShortcutId p q := by
  obtain ⟨hg, hext, hnext, hroom⟩ := growIfFull_spec h hnum
  have hpos : E.nextShortcutId - E.numOfOriginalEdges
      = (growIfFull E).nextShortcutId - (growIfFull E).numOfOriginalEdges := by
    rw [hnext, hext.orig]
  rw [← hnext]
  unfold addShortcutEdge
  rw [hpos]
  generalize growIfFull E = G at hg hext hroom
  have h0 : 0 ≤ G.nextShortcutId - G.numOfOriginalEdges := by have := hg.orig_le_next; omega
  have hs := hg.startLength
  have hd := hg.destLength
  have hp := hg.partsLength
  have ho := hg.orig_le_next
  have hos := hg.origStart
  simp only
  generalize hn : G.nextShortcutId - G.numOfOriginalEdges = n at *
  have hparts0 : n * 2 < (G.shortcutEdgeParts.length : Int) := by omega
  have hparts1 : n * 2 + 1 < ((G.shortcutEdgeParts.set (n * 2).toNat p).length : Int) := by
    rw [List.length_set]; omega
  rw [wr_of_bounds _ h0 (by omega), ok_bind, wr_of_bounds _ h0 (by omega), ok_bind,
    wr_of_bounds _ h0 hroom, ok_bind, wr_of_bounds _ (by omega) hparts0, ok_bind,
    wr_of_bounds _ (by omega) hparts1, ok_bind]
  have hold : ∀ (a : List Int) (x : Int) {e : Int}, e < G.nextShortcutId → n < a.length →
      rd (a.set n.toNat x) (e - G.numOfOriginalEdges) = rd a (e - G.numOfOriginalEdges) := by
    intro a x e he hlen
    rw [rd_set h0 hlen, if_neg (by omega)]
  refine ⟨_, rfl, ?_, hext.trans ⟨rfl, rfl, rfl, rfl, ?_, ?_, ?_⟩, rfl, ?_, ?_⟩
  · refine ⟨hg.origStart, hg.origDest, hg.origDist, ?_, ?_, ?_, ?_, ?_, hg.increase⟩
    · simp [hs]
    · simp [hd]
    · simp [hp]
    · show G.numOfOriginalEdges ≤ G.nextShortcutId + 1
      omega
    · simp only [List.length_set]
      omega
  · show G.nextShortcutId ≤ G.nextShortcutId + 1
    omega
  · intro e u v l he
    have hlt := he.lt_next
    refine ⟨he.nonneg, by show e < G.nextShortcutId + 1; omega, ?_, ?_, ?_⟩
    · have h1 := he.start
      simp only [getStart] at h1 ⊢
      rw [hold _ _ hlt (by omega)]
      exact h1
    · have h1 := he.dest
      simp only [getDest] at h1 ⊢
      rw [hold _ _ hlt (by omega)]
      exact h1
    · have h1 := he.dist
      simp only [getDist] at h1 ⊢
      rw [hold _ _ hlt (by omega)]
      exact h1
  · intro e p' q' he0 he1 he
    have hset : ∀ i : Int, i < n * 2 → rd ((G.shortcutEdgeParts.set (n * 2).toNat p).set
        (n * 2 + 1).toNat q) i = rd G.shortcutEdgeParts i := by
      intro i hi
      rw [rd_set (by omega) hparts1, if_neg (by omega), rd_set (by omega) hparts0,
        if_neg (by omega)]
    refine ⟨?_, ?_⟩
    · simp only
      rw [hset _ (by omega)]
      exact he.first
    · simp only
      rw [hset _ (by omega)]
      exact he.second
  · have hno : ¬ G.nextShortcutId < G.numOfOriginalEdges := by omega
    refine ⟨by omega, by show G.nextShortcutId < G.nextShortcutId + 1; omega, ?_, ?_, ?_⟩
    · simp only [getStart, if_neg hno]
      rw [hn, rd_set h0 (by omega), if_pos rfl]
    · simp only [getDest, if_neg hno]
      rw [hn, rd_set h0 (by omega), if_pos rfl]
    · simp only [getDist, if_neg hno]
      rw [hn, rd_set h0 hroom, if_pos rfl]
  · refine ⟨?_, ?_⟩
    · simp only [hn]
      rw [rd_set (by omega) hparts1, if_neg (by omega), rd_set (by omega) hparts0, if_pos rfl]
    · simp only [hn]
      rw [rd_set (by omega) hparts1, if_pos rfl]

end Edges

end SeaRouter
