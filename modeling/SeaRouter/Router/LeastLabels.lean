import SeaRouter.Router.HubLData

/-!
# No label is superfluous

`Labelling` is what the merge loop of a request needs of the labels: they are exact,
lead to higher levels, and any two joined nodes have a common one on a shortest way.
On a graph that is `Direct` for the levels of its hierarchy, the labels that
`calcLabels` leaves after its removals are the least such labelling, and on no other
graph are they a labelling at all.
-/

namespace SeaRouter

open Java WGraph

namespace LabelCreator

open HubLNodes

variable {I : InputGraph} {n : Nat} {calcOrder : List Int} {s : LabelCreator} {top : Int}
  {L : Labels}

/-- The node `v` exists and gets labels. -/
def GetsLabels (n : Nat) (s : LabelCreator) (K v : Int) : Prop :=
  (0 ≤ v ∧ v < n) ∧ K ≤ levelOf s v

/-- `L` has the label `g` with the distance `d` for `v`. -/
def HasHub (L : Labels) (v g d : Int) : Prop := ∃ e, (g, e, d) ∈ entries L v

/-- The hubs of a node have higher levels, so they get labels too. -/
theorem GetsLabels.of_isHub (h : Finished I n s top) {K v g : Int} (hv : GetsLabels n s K v)
    (hhub : IsHub I.Adj (HLDijkstra.level s.levels) v g) : GetsLabels n s K g := by
  by_cases hne : v = g
  · exact hne ▸ hv
  · obtain ⟨d, hd⟩ := hhub.joined
    have hlt : levelOf s v < levelOf s g := hhub.rank_lt h.ranked.nonneg hne
    have hlow := hv.2
    exact ⟨(h.walk_node hd.1 (Ne.symm hne)).2, by omega⟩

theorem Finished.hasHub_iff (h : Finished I n s top) {T K : Nat} (hT : 0 < T)
    (hdirect : Direct I s K)
    (hrun : calcLabels T K s.edges s.grid s.levels n (Labels.new n) = .ok L) (v g d : Int) :
    HasHub L v g d ↔
      GetsLabels n s K v ∧ IsHub I.Adj (HLDijkstra.level s.levels) v g ∧ IsDist I.Adj v g d := by
  obtain ⟨order, m, L', hbefore, hdone, hseq, _⟩ := h.calcLabels_done K
  obtain rfl : L = L' := Except.ok.inj (hrun.symm.trans (hseq T hT))
  have hiff := fun hv => h.entries_iff hbefore hdone
    (fun u _ hu => hdirect.launches h hu) (v := v) hv g d
  constructor
  · intro hhas
    obtain ⟨e, he⟩ := hhas
    have hv := before_of_entries hdone he
    exact ⟨(hbefore v).mp hv, (hiff hv).mp ⟨e, he⟩⟩
  · intro hhub
    exact (hiff ((hbefore v).mpr hhub.1)).mpr hhub.2

/-- The labels are the least labelling if and only if the graph is `Direct`; otherwise
they are none. -/
theorem calcLabels_isLeast_iff (hI : I.Undirected n) (hsimple : I.Simple) (hpos : I.Positive)
    (horder : ∀ u : Int, u ∈ calcOrder ↔ 0 ≤ u ∧ u < n) (hfit : SumsFit I n calcOrder) (T K : Nat)
    (hT : 0 < T) :
    ∃ s L, calculateCH I.edges I.grid n calcOrder = .ok s ∧
      calcLabels T K s.edges s.grid s.levels n (Labels.new n) = .ok L ∧
      (IsLeast {B | Labelling I.Adj (GetsLabels n s K) (levelOf s) B} (HasHub L) ↔ Direct I s K) ∧
      (Labelling I.Adj (GetsLabels n s K) (levelOf s) (HasHub L) ↔ Direct I s K) := by
  obtain ⟨s, top, hch, hf⟩ := calculateCH_finished hI hpos horder
  obtain ⟨_, _, L, _, _, hseq, _⟩ := hf.calcLabels_done K
  have hrun := hseq T hT
  have hint := hf.holdsInts (hfit s hch) hT hrun
  have hleast : Direct I s K →
      IsLeast {B | Labelling I.Adj (GetsLabels n s K) (levelOf s) B} (HasHub L) := by
    intro hdirect
    have hsame : HasHub L = fun v g d => GetsLabels n s K v ∧
        IsHub I.Adj (HLDijkstra.level s.levels) v g ∧ IsDist I.Adj v g d := by
      funext v g d
      exact propext (hf.hasHub_iff hT hdirect hrun v g d)
    rw [hsame]
    exact hf.ranked.isLeast_hubs fun _ _ hu hhub => hu.of_isHub hf hhub
  have hdirect : Labelling I.Adj (GetsLabels n s K) (levelOf s) (HasHub L) → Direct I s K := by
    intro hlab
    by_contra hnot
    obtain ⟨v, w, d, _, hv, hw, hKv, hKw, hd, hlong⟩ :=
      exists_too_long hf hsimple (hf.fairLabels hT hrun hint) hnot
    obtain ⟨g, a, b, ⟨e, he⟩, ⟨e', he'⟩, hab⟩ := hlab.cover v w d ⟨hv, hKv⟩ ⟨hw, hKw⟩ hd
    exact hlong g e a e' b he he' hab
  exact ⟨s, L, hch, hrun, ⟨fun h => hdirect h.1, hleast⟩, hdirect, fun h => (hleast h).1⟩

theorem calcLabels_isLeast_iff_row :
    ∃ s L, calculateCH row.edges row.grid 3 [1, 0, 2] = .ok s ∧
      calcLabels NUM_OF_THREADS 1 s.edges s.grid s.levels 3 (Labels.new 3) = .ok L ∧
      (IsLeast {B | Labelling row.Adj (GetsLabels 3 s (1 : Nat)) (levelOf s) B} (HasHub L) ↔
        Direct row s (1 : Nat)) ∧
      (Labelling row.Adj (GetsLabels 3 s (1 : Nat)) (levelOf s) (HasHub L) ↔
        Direct row s (1 : Nat)) :=
  calcLabels_isLeast_iff row_checked.undirected (row_checked.simple (by decide +kernel)) row_positive
    mem_detourOrder row_sumsFit NUM_OF_THREADS 1 (by decide)

end LabelCreator

end SeaRouter
