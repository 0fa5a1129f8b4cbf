import SeaRouter.HubLabelCreation.Edges

/-!
# `hublabeldata/HubLEdges.java`

The edges as the router keeps them: the original edges and the shortcuts in one
array each, and the two parts of every shortcut.  `initializeFrom` copies them out
of `Edges`, whose arrays are larger than what they hold; `initializeFrom_spec` says
that nothing is lost or moved.
-/

namespace SeaRouter

open Java

/-- The static fields of `HubLEdges`. -/
structure HubLEdges where
  dest : List Int
  dist : List Int
  firstShortcutIdx : Int
  shortcutParts : List Int
deriving DecidableEq, Repr

namespace HubLEdges

def getDest (H : HubLEdges) (edgeId : Int) : Run Int := rd H.dest edgeId

def getDist (H : HubLEdges) (edgeId : Int) : Run Int := rd H.dist edgeId

def isShortcut (H : HubLEdges) (edgeId : Int) : Bool := decide (H.firstShortcutIdx ≤ edgeId)

/-- The part of a shortcut that has its destination. -/
def getSecondShortcut (H : HubLEdges) (edgeId : Int) : Run Int :=
  rd H.shortcutParts ((edgeId - H.firstShortcutIdx) * 2)

/-- The part of a shortcut that has its start. -/
def getFirstShortcut (H : HubLEdges) (edgeId : Int) : Run Int :=
  rd H.shortcutParts ((edgeId - H.firstShortcutIdx) * 2 + 1)

/-- The two block copies that put the original values and those of the
shortcuts into a new array of `edgeCount` elements. -/
def joined (original shortcuts : List Int) (originalEdgeCount edgeCount : Int) :
    Run (List Int) := do
  let a ← arraycopy original 0 (List.replicate edgeCount.toNat 0) 0 originalEdgeCount
  arraycopy shortcuts 0 a originalEdgeCount (edgeCount - originalEdgeCount)

/-- `initialize()`, with the static fields of `Edges`. -/
def initializeFrom (E : Edges) : Run HubLEdges := do
  let edgeCount := E.nextShortcutId
  let originalEdgeCount := E.numOfOriginalEdges
  let shortcutCount := edgeCount - originalEdgeCount
  let dest ← joined E.originalEdgeDest E.shortcutEdgeDest originalEdgeCount edgeCount
  let dist ← joined E.originalEdgeDist E.shortcutEdgeDist originalEdgeCount edgeCount
  -- every shortcut contains two lower level edges
  let shortcutParts ← arraycopy E.shortcutEdgeParts 0
    (List.replicate (shortcutCount * 2).toNat 0) 0 (shortcutCount * 2)
  return { dest, dist, firstShortcutIdx := originalEdgeCount, shortcutParts }

/-! ## What is copied -/

/-- `H` has the edges of `E`, with the same ids. -/
structure Copies (E : Edges) (H : HubLEdges) : Prop where
  firstShortcut : H.firstShortcutIdx = E.numOfOriginalEdges
  destLength : (H.dest.length : Int) = E.nextShortcutId
  distLength : (H.dist.length : Int) = E.nextShortcutId
  dest : ∀ e, E.IsId e → H.getDest e = E.getDest e
  dist : ∀ e, E.IsId e → H.getDist e = E.getDist e
  parts : ∀ e p q, E.numOfOriginalEdges ≤ e → e < E.nextShortcutId → E.HasParts e p q →
    H.getSecondShortcut e = .ok p ∧ H.getFirstShortcut e = .ok q

theorem joined_eq {original : List Int} (shortcuts : List Int) {m k : Nat} (hm : original.length = m)
    (hk : k ≤ shortcuts.length) :
    joined original shortcuts m (m + k) = .ok (original ++ shortcuts.take k) := by
  have hcount : ((m : Int) + k).toNat = m + k := by omega
  have hrest : (m : Int) + k - m = k := by omega
  have h1 : arraycopy original 0 (List.replicate (m + k) 0) 0 m =
      .ok (original ++ List.replicate k 0) := by
    have := arraycopy_fill 0 [] original (n := m + k) (k := m) (by omega) (by omega)
    rw [List.nil_append, List.nil_append, ← hm, List.take_length] at this
    rw [← hm]
    simpa using this
  have h2 := arraycopy_fill 0 original shortcuts (le_refl k) hk
  rw [joined, hcount, h1, ok_bind, hrest, ← hm, h2]
  simp

/-- The array that the two block copies fill. -/
theorem rd_joined {original shortcuts : List Int} {m k : Nat} (hm : original.length = m)
    {e : Int} (h0 : 0 ≤ e) (h1 : e < m + k) :
    rd (original ++ shortcuts.take k) e =
      if e < m then rd original e else rd shortcuts (e - m) := by
  split_ifs with he
  · exact rd_append_left (by rw [hm]; exact he)
  · obtain ⟨i, rfl⟩ : ∃ i : Nat, e = (m + i : Nat) := ⟨(e - m).toNat, by omega⟩
    have hsub : ((m + i : Nat) : Int) - m = (i : Nat) := by omega
    have hi : i < k := by omega
    rw [hsub, rd_ofNat, rd_ofNat, List.getElem?_append_right (by omega), hm,
      Nat.add_sub_cancel_left, List.getElem?_take_of_lt hi]

theorem initializeFrom_spec {E : Edges} (h : E.Valid) :
    ∃ H, initializeFrom E = .ok H ∧ Copies E H := by
  obtain ⟨m, hm⟩ : ∃ m : Nat, E.numOfOriginalEdges = m :=
    ⟨E.originalEdgeDest.length, h.origDest.symm⟩
  obtain ⟨k, hk⟩ : ∃ k : Nat, E.nextShortcutId = m + k :=
    ⟨(E.nextShortcutId - m).toNat, by have := h.orig_le_next; omega⟩
  have hnext := h.next_le
  have hdest : E.originalEdgeDest.length = m := by have := h.origDest; omega
  have hdist : E.originalEdgeDist.length = m := by have := h.origDist; omega
  have hdestLen := h.destLength
  have hpartsLen := h.partsLength
  have hjd := joined_eq E.shortcutEdgeDest (k := k) hdest (by omega)
  have hjl := joined_eq E.shortcutEdgeDist (k := k) hdist (by omega)
  have hparts := arraycopy_fill 0 [] E.shortcutEdgeParts (le_refl (2 * k)) (by omega)
  rw [List.nil_append, List.nil_append, Nat.sub_self, List.replicate_zero,
    List.append_nil, List.length_nil, Nat.cast_zero] at hparts
  have htwo : ((m : Int) + k - m) * 2 = (2 * k : Nat) := by omega
  refine ⟨_, by
    rw [initializeFrom, hm, hk, hjd, ok_bind, hjl, ok_bind, htwo, Int.toNat_natCast, hparts]
    rfl, ?_⟩
  constructor
  · exact hm.symm
  · simp only [List.length_append, List.length_take]
    omega
  · simp only [List.length_append, List.length_take]
    omega
  · rintro e ⟨h0, h1⟩
    rw [hk] at h1
    rw [getDest, rd_joined hdest h0 h1, Edges.getDest, hm]
  · rintro e ⟨h0, h1⟩
    rw [hk] at h1
    rw [getDist, rd_joined hdist h0 h1, Edges.getDist, hm]
  · intro e p q h0 h1 hpq
    have hfirst := hpq.first
    have hsecond := hpq.second
    have htake : ∀ i : Int, 0 ≤ i → i < 2 * k →
        rd (E.shortcutEdgeParts.take (2 * k)) i = rd E.shortcutEdgeParts i := by
      intro i hi0 hi1
      obtain ⟨j, rfl⟩ : ∃ j : Nat, i = j := ⟨i.toNat, by omega⟩
      rw [rd_ofNat, rd_ofNat, List.getElem?_take_of_lt (by omega)]
    rw [hm] at hfirst hsecond
    constructor
    · rw [getSecondShortcut, htake ((e - m) * 2) (by omega) (by omega), hfirst]
    · rw [getFirstShortcut, htake ((e - m) * 2 + 1) (by omega) (by omega), hsecond]

end HubLEdges

end SeaRouter
